import Mathlib.Data.List.Chain
import Corestack.Brain.Frame

/-!
# Replies read late

A row that prints as an end line cuts a reply short, and what is left of it
is read in place of later replies. What is unread is therefore kept as the
queue of *segments* that the next reads will take: lines, and the end line
behind them.

A segment is *flat* if it holds no table whose first row has two fields. A
reader that asks for two fields finds none in a flat segment.
-/

namespace Corestack.Brain

open List Lib Db

/-! ## Segments -/

/-- What one read takes off the connection. -/
structure Segment where
  lines : List Bytes
  mark : Bytes
  inner : ∀ l ∈ lines, isMarker (lineBuf l) = false
  ended : isMarker (lineBuf mark) = true

namespace Segment

def all (s : Segment) : List Bytes := s.lines ++ [s.mark]

def status (s : Segment) : DbStatus := classify (lineBuf s.mark)

def body (s : Segment) (cap : Nat) : Bytes := (bodyText s.lines).take (cap - 1)

end Segment

def queueLines (q : List Segment) : List Bytes := q.flatMap Segment.all

theorem queueLines_cons (s : Segment) (q : List Segment) :
    queueLines (s :: q) = s.lines ++ s.mark :: queueLines q := by
  simp [queueLines, Segment.all]

theorem queueLines_append (q q' : List Segment) :
    queueLines (q ++ q') = queueLines q ++ queueLines q' := flatMap_append

variable {m : Bytes}

theorem exists_queue (ls : List Bytes) (hm : isMarker (lineBuf m) = true) :
    ∃ s q, queueLines (s :: q) = ls ++ [m] := by
  induction ls with
  | nil => exact ⟨⟨[], m, by simp, hm⟩, [], by simp [queueLines, Segment.all]⟩
  | cons l ls ih =>
    obtain ⟨s, q, hq⟩ := ih
    cases hl : isMarker (lineBuf l) with
    | true =>
      refine ⟨⟨[], l, by simp, hl⟩, s :: q, ?_⟩
      rw [queueLines_cons, hq]
      rfl
    | false =>
      refine ⟨⟨l :: s.lines, s.mark, ?_, s.ended⟩, q, ?_⟩
      · intro x hx
        rcases mem_cons.mp hx with rfl | hx
        · exact hl
        · exact s.inner x hx
      · rw [queueLines_cons] at hq ⊢
        rw [cons_append, hq]
        rfl

/-- A read takes the first segment. -/
theorem dbWireResponse_queue (cap : Nat) (s : Segment) (q : List Segment) :
    dbWireResponse cap (queueLines (s :: q)) [] = some (s.status, s.body cap, queueLines q) := by
  rw [queueLines_cons, dbWireResponse_eq s.inner s.ended]
  rfl

variable {s : Segment} {q : List Segment} {a b : List Bytes}

/-- Lines without an end line stand in the first segment, and what is behind
it comes from the lines after them. -/
theorem queue_split (ha : ∀ l ∈ a, isMarker (lineBuf l) = false)
    (h : queueLines (s :: q) = a ++ b) :
    a <+: s.lines ∧ queueLines q <:+ b := by
  rw [queueLines_cons] at h
  have hpre : a <+: s.lines := by
    rcases append_eq_append_iff.mp h with ⟨c, hc, hb⟩ | ⟨c, hc, -⟩
    · cases c with
      | nil => exact ⟨[], by rw [hc, append_nil, append_nil]⟩
      | cons x c =>
        obtain ⟨rfl, -⟩ := List.cons.inj hb
        have := ha s.mark (by rw [hc]; simp)
        rw [s.ended] at this
        cases this
    · exact ⟨c, hc.symm⟩
  obtain ⟨c, hc⟩ := hpre
  refine ⟨⟨c, hc⟩, c ++ [s.mark], ?_⟩
  rw [← hc, append_assoc] at h
  rw [append_assoc, singleton_append]
  exact append_cancel_left h

variable {ls : List Bytes}

/-- Lines none of which is an end line, and the one behind them, are one
segment. -/
theorem queue_single (hls : ∀ l ∈ ls, isMarker (lineBuf l) = false)
    (h : queueLines (s :: q) = ls ++ [m]) : q = [] ∧ s.lines = ls ∧ s.mark = m := by
  have hm : isMarker (lineBuf m) = true := by
    cases hq : isMarker (lineBuf m) with
    | true => rfl
    | false =>
      have hmem : s.mark ∈ ls ++ [m] := by
        rw [← h, queueLines_cons]
        simp
      rcases mem_append.mp hmem with hx | hx
      · rw [← hls _ hx, s.ended]
      · rw [← hq, ← mem_singleton.mp hx, s.ended]
  rw [queueLines_cons] at h
  obtain ⟨h1, h2, h3⟩ := first_unique (P := fun l => isMarker (lineBuf l)) h s.inner s.ended hls hm
  refine ⟨?_, h1, h2⟩
  cases q with
  | nil => rfl
  | cons t q =>
    rw [queueLines_cons] at h3
    simp at h3

/-! ## Flat segments -/

/-- The line below a rule has one field, unless it ends the reply. -/
def Follows (r x : Bytes) : Prop :=
  isRule (lineBuf r) = true → isMarker (lineBuf x) = false → tab ∉ lineBuf x

/-- Lines that are lines, with no table whose first row has two fields. -/
structure Flat (ls : List Bytes) : Prop where
  noLf : ∀ l ∈ ls, lf ∉ l
  chain : ls.IsChain Follows

theorem Flat.within {ls' : List Bytes} (h : Flat ls') (hin : ls <:+: ls') : Flat ls :=
  ⟨fun l hl => h.noLf l (hin.subset hl), h.chain.infix hin⟩

theorem flat_of_noRule (hlf : ∀ l ∈ ls, lf ∉ l) (hrule : ∀ l ∈ ls, isRule (lineBuf l) = false) :
    Flat ls := by
  refine ⟨hlf, isChain_iff_forall_rel_of_append_cons_cons.mpr fun a x l₁ l₂ h hr => ?_⟩
  rw [hrule a (by rw [h]; simp)] at hr
  cases hr

theorem flat_cons {l : Bytes} (hlf : lf ∉ l) (h : ∀ x ∈ ls.head?, Follows l x) (hls : Flat ls) :
    Flat (l :: ls) := by
  refine ⟨fun x hx => ?_, ?_⟩
  · rcases mem_cons.mp hx with rfl | hx
    · exact hlf
    · exact hls.noLf x hx
  · cases ls with
    | nil => exact isChain_singleton l
    | cons y ls => exact isChain_cons_cons.mpr ⟨h y rfl, hls.chain⟩

theorem flat_append_of_noRule (hlf : ∀ l ∈ a, lf ∉ l) (hrule : ∀ l ∈ a, isRule (lineBuf l) = false)
    (hb : Flat b) : Flat (a ++ b) := by
  induction a with
  | nil => exact hb
  | cons l a ih =>
    refine flat_cons (hlf l (by simp)) (fun x _ hr => ?_)
      (ih (fun y hy => hlf y (by simp [hy])) fun y hy => hrule y (by simp [hy]))
    rw [hrule l (by simp)] at hr
    cases hr

theorem flat_append_of_noTab {y : Bytes} (hlf : ∀ l ∈ a, lf ∉ l) (htab : ∀ l ∈ a, tab ∉ l)
    (hy : tab ∉ y) (hb : Flat (y :: b)) : Flat (a ++ y :: b) := by
  induction a with
  | nil => exact hb
  | cons l a ih =>
    refine flat_cons (hlf l (by simp)) (fun x hx _ _ hmem => ?_)
      (ih (fun z hz => hlf z (by simp [hz])) fun z hz => htab z (by simp [hz]))
    cases a with
    | nil =>
      cases hx
      exact hy (mem_lineBuf hmem)
    | cons l' a =>
      cases hx
      exact htab x (by simp) (mem_lineBuf hmem)

/-- A segment that is of no use to a reader of two fields. -/
def Segment.Harmless (s : Segment) : Prop := s.status = .ok → Flat s.lines

/-- Every segment of the queue is harmless. -/
def Settled (q : List Segment) : Prop := ∀ s ∈ q, s.Harmless

theorem settled_of_flat (h : Flat (queueLines q)) : Settled q := by
  intro s hs _
  refine h.within ?_
  obtain ⟨q₁, q₂, rfl⟩ := append_of_mem hs
  refine ⟨queueLines q₁, s.mark :: queueLines q₂, ?_⟩
  rw [queueLines_append, queueLines_cons, append_assoc]

theorem Settled.tail {q : List Segment} (h : Settled q) : Settled q.tail :=
  fun s hs => h s (mem_of_mem_tail hs)

theorem settled_append {q' : List Segment} (h : Settled q) (h' : Settled q') :
    Settled (q ++ q') := fun s hs => (mem_append.mp hs).elim (h s) (h' s)

/-! ## Reading a flat segment -/

theorem split_take_lines (hne : ls ≠ []) (hlf : ∀ l ∈ ls, lf ∉ l) (m : Nat) :
    ∃ k p l, ls[k]? = some l ∧ p <+: l ∧ split lf ((join lf ls).take m) = ls.take k ++ [p] := by
  induction ls generalizing m with
  | nil => exact absurd rfl hne
  | cons l ls ih =>
    have hl : lf ∉ l := hlf l (by simp)
    have hcut : ∀ m, split lf (l.take m) = [l.take m] :=
      fun m => split_piece fun h => hl (mem_of_mem_take h)
    cases ls with
    | nil => exact ⟨0, l.take m, l, rfl, take_prefix m l, hcut m⟩
    | cons l' ls =>
      rw [join]
      by_cases hm : m ≤ l.length
      · refine ⟨0, l.take m, l, rfl, take_prefix m l, ?_⟩
        rw [take_append_of_le_length hm]
        exact hcut m
      · obtain ⟨k, p, x, hx, hp, hsplit⟩ := ih (by simp) (fun y hy => hlf y (by simp [hy]))
          (m - l.length - 1)
        refine ⟨k + 1, p, x, hx, hp, ?_⟩
        obtain ⟨j, hj⟩ : ∃ j, m - l.length = j + 1 := ⟨m - l.length - 1, by omega⟩
        rw [take_append, take_of_length_le (by omega), hj, take_succ_cons,
          split_append hl, take_succ_cons, cons_append, ← hsplit, hj]
        rfl

/-- A rule with a row without TAB below it. -/
def RuleFollows (r x : Bytes) : Prop := isRule r = true → tab ∉ x

theorem chain_cut (hlf : ∀ l ∈ ls, lf ∉ l) (h : ls.IsChain RuleFollows) (m : Nat) :
    (split lf ((join lf ls).take m)).IsChain RuleFollows := by
  by_cases hne : ls = []
  · subst hne
    simp [join, split]
  · obtain ⟨k, p, l, hl, hp, hcut⟩ := split_take_lines hne hlf m
    have hwhole : (ls.take k ++ [l]).IsChain RuleFollows := by
      obtain ⟨hk, rfl⟩ := List.getElem?_eq_some_iff.mp hl
      rw [take_append_getElem hk]
      exact h.take _
    rw [isChain_append] at hwhole
    rw [hcut, isChain_append]
    refine ⟨hwhole.1, isChain_singleton p, ?_⟩
    rintro r hr _ ⟨⟩ hrule hx
    exact hwhole.2.2 r hr l rfl hrule (hp.subset hx)

variable {f g : Bytes} {fs : List Bytes}

theorem fields_of_chain {body : Bytes} (h : (split lf body).IsChain RuleFollows) :
    dbRowFields body 0 ≠ some (f :: g :: fs) := by
  intro hfields
  unfold dbRowFields at hfields
  split at hfields
  · rename_i count rows hcount hrows
    split at hfields
    · obtain ⟨x, hx, hsplit⟩ := Option.map_eq_some_iff.mp hfields
      have htab : tab ∈ x := by
        by_contra hno
        rw [split_piece hno] at hsplit
        cases hsplit
      obtain ⟨A, r, htail, hr, -, -⟩ := belowRule_eq_some hrows
      cases rows with
      | nil => cases hx
      | cons y rows =>
        cases hx
        obtain ⟨l₀, tl, hlines⟩ := exists_cons_of_ne_nil (split_ne_nil lf body)
        rw [hlines, tail_cons] at htail
        rw [hlines, htail] at h
        exact isChain_iff_forall_rel_of_append_cons_cons.mp h
          (cons_append ..).symm hr htab
    · cases hfields
  · cases hfields

theorem Flat.fields (h : Flat ls) (hinner : ∀ l ∈ ls, isMarker (lineBuf l) = false) {m : Nat} :
    dbRowFields ((bodyText ls).take m) 0 ≠ some (f :: g :: fs) := by
  refine fields_of_chain (chain_cut (fun l hl hx => ?_) ?_ m)
  · obtain ⟨l', hl', rfl⟩ := mem_map.mp ((dropWhile_sublist _).subset hl)
    exact h.noLf l' hl' (mem_lineBuf hx)
  · refine List.IsChain.suffix ?_ (dropWhile_suffix _)
    rw [isChain_map]
    refine isChain_iff_forall_rel_of_append_cons_cons.mpr fun a x l₁ l₂ hl hr => ?_
    exact isChain_iff_forall_rel_of_append_cons_cons.mp h.chain hl hr
      (hinner x (by rw [hl]; simp))

theorem Segment.Harmless.fields (h : s.Harmless) (hok : s.status = .ok) {cap : Nat} :
    dbRowFields (s.body cap) 0 ≠ some (f :: g :: fs) :=
  (h hok).fields s.inner

end Corestack.Brain
