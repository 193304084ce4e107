import Mathlib.Data.List.Infix

/-!
# Records of one size in a stream

A writer puts records of one size into a stream, in pieces; a reader takes
the stream out again, in pieces of its own, and hands over a record whenever
it has collected one. As long as the writer finishes what it starts, the
reader hands over the records written, in order and without a gap. A writer
that gives up in the middle of a record has to stay silent from then on.
-/

namespace Corestack.Lib

open List

variable {α : Type}

/-- One direction of a connection: the records written and the part of the
one being written that is in the stream (`pushed`) and that is not (`left`);
the stream; the part of a record that the reader holds, and the records it
handed over. -/
structure Pipe (α : Type) where
  written : List (List α)
  record : List α
  pushed : List α
  left : List α
  torn : Bool
  stream : List α
  got : List α
  handed : List (List α)

namespace Pipe

def empty : Pipe α := ⟨[], [], [], [], false, [], [], []⟩

def start (p : Pipe α) (r : List α) : Pipe α := { p with record := r, left := r }

def push (p : Pipe α) (n : Nat) : Pipe α :=
  let p' := { p with
    pushed := p.pushed ++ p.left.take n
    left := p.left.drop n
    stream := p.stream ++ p.left.take n }
  match p'.left with
  | [] => { p' with written := p.written ++ [p.record], pushed := [] }
  | _ :: _ => p'

def abandon (p : Pipe α) : Pipe α := { p with left := [], torn := true }

def pull (size : Nat) (p : Pipe α) (n : Nat) : Pipe α :=
  let p' := { p with got := p.got ++ p.stream.take n, stream := p.stream.drop n }
  if p'.got.length = size then { p' with got := [], handed := p.handed ++ [p'.got] } else p'

/-- The bytes taken and in the stream are those of the records written and
of the one begun. -/
structure Framed (size : Nat) (p : Pipe α) : Prop where
  bytes : p.handed.flatten ++ p.got ++ p.stream = p.written.flatten ++ p.pushed
  written : ∀ r ∈ p.written, r.length = size
  handed : ∀ r ∈ p.handed, r.length = size
  got : p.got.length < size
  pushed : p.pushed.length < size
  idle : p.torn = false → p.left = [] → p.pushed = []
  busy : p.torn = false → p.left ≠ [] → p.pushed ++ p.left = p.record ∧ p.record.length = size

variable {size : Nat} {p : Pipe α}

theorem framed_empty (hsize : 0 < size) : (empty : Pipe α).Framed size where
  bytes := rfl
  written := by simp [empty]
  handed := by simp [empty]
  got := hsize
  pushed := hsize
  idle := fun _ _ => rfl
  busy := fun _ h => absurd rfl h

theorem Framed.start (h : p.Framed size) (hleft : p.left = []) {r : List α}
    (hr : r.length = size) : (p.start r).Framed size where
  bytes := h.bytes
  written := h.written
  handed := h.handed
  got := h.got
  pushed := h.pushed
  idle := fun ht _ => h.idle ht hleft
  busy := fun ht _ => ⟨by show p.pushed ++ r = r; rw [h.idle ht hleft, nil_append], hr⟩

theorem Framed.abandon (h : p.Framed size) : p.abandon.Framed size where
  bytes := h.bytes
  written := h.written
  handed := h.handed
  got := h.got
  pushed := h.pushed
  idle := fun ht _ => by cases ht
  busy := fun _ hne => absurd rfl hne

theorem Framed.push (h : p.Framed size) (ht : p.torn = false) {n : Nat} (hn : 0 < n)
    (hle : n ≤ p.left.length) : (p.push n).Framed size := by
  have hne : p.left ≠ [] := by
    rintro heq
    rw [heq] at hle
    simp at hle
    omega
  obtain ⟨hrec, hsize⟩ := h.busy ht hne
  have hbytes : p.handed.flatten ++ p.got ++ (p.stream ++ p.left.take n) =
      p.written.flatten ++ (p.pushed ++ p.left.take n) := by
    rw [← append_assoc, h.bytes, append_assoc]
  have hlen := congrArg List.length hrec
  rw [length_append, hsize] at hlen
  unfold Pipe.push
  cases hleft : p.left.drop n with
  | nil =>
    have htake : p.left.take n = p.left :=
      take_of_length_le (drop_eq_nil_iff.mp hleft)
    refine ⟨?_, ?_, h.handed, h.got, by simpa using lt_of_le_of_lt (Nat.zero_le _) h.got,
      fun _ _ => rfl, fun _ hl => absurd rfl hl⟩
    · rw [hbytes, htake, hrec]
      simp
    · intro r hr
      rcases mem_append.mp hr with hr | hr
      · exact h.written r hr
      · rw [mem_singleton.mp hr, hsize]
  | cons x xs =>
    have hrest := congrArg List.length hleft
    rw [length_drop, length_cons] at hrest
    refine ⟨hbytes, h.written, h.handed, h.got, ?_, fun _ hl => ?_, fun _ _ => ⟨?_, hsize⟩⟩
    · simp only [length_append, length_take]
      omega
    · cases hl
    · dsimp only
      rw [← hleft, append_assoc, take_append_drop, hrec]

theorem Framed.pull (h : p.Framed size) {n : Nat} (hle : n ≤ size - p.got.length) :
    (p.pull size n).Framed size := by
  have hbytes : p.handed.flatten ++ (p.got ++ p.stream.take n) ++ p.stream.drop n =
      p.written.flatten ++ p.pushed := by
    rw [← h.bytes, append_assoc, append_assoc, append_assoc,
      take_append_drop]
  unfold Pipe.pull
  dsimp only
  split
  next hfull =>
    refine ⟨?_, h.written, ?_, lt_of_le_of_lt (Nat.zero_le _) h.got, h.pushed, h.idle, h.busy⟩
    · rw [← hbytes]
      simp
    · intro r hr
      rcases mem_append.mp hr with hr | hr
      · exact h.handed r hr
      · rw [mem_singleton.mp hr, hfull]
  next hpart =>
    refine ⟨hbytes, h.written, h.handed, ?_, h.pushed, h.idle, h.busy⟩
    have := h.got
    simp only [length_append, length_take] at hpart ⊢
    omega

theorem prefix_of_flatten {rs ws : List (List α)} {more part : List α}
    (hrs : ∀ r ∈ rs, r.length = size) (hws : ∀ w ∈ ws, w.length = size)
    (hpart : part.length < size) (h : rs.flatten ++ more = ws.flatten ++ part) : rs <+: ws := by
  induction rs generalizing ws with
  | nil => exact nil_prefix
  | cons r rs ih =>
    have hr := hrs r mem_cons_self
    cases ws with
    | nil =>
      have hlen := congrArg List.length h
      simp only [flatten_cons, flatten_nil, length_append, nil_append,
        hr] at hlen
      omega
    | cons w ws =>
      have hw := hws w mem_cons_self
      simp only [flatten_cons, append_assoc] at h
      obtain ⟨rfl, hrest⟩ := append_inj h (by rw [hr, hw])
      have := ih (fun r hr => hrs r (mem_cons_of_mem _ hr))
        (fun w hw => hws w (mem_cons_of_mem _ hw)) hrest
      exact cons_prefix_cons.mpr ⟨rfl, this⟩

theorem Framed.handed_prefix (h : p.Framed size) : p.handed <+: p.written :=
  prefix_of_flatten h.handed h.written h.pushed ((append_assoc ..).symm.trans h.bytes)

end Pipe

end Corestack.Lib
