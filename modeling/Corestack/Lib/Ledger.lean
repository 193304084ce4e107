import Mathlib.Data.List.Perm.Basic
import Mathlib.Data.List.Nodup
import Mathlib.Data.List.Dedup

/-!
# Ledgers of versioned entries

A history is the list of what was submitted under which key, newest first.
Its ledger keeps every submission as an entry with a version number, and
the latest entry of each key is the live one. This is what a table that is
only ever appended to, with a flag for replaced rows, is meant to hold.
-/

namespace Corestack.Lib

open List

/-- A submission in a ledger. -/
structure Entry (κ β : Type) where
  key : κ
  val : β
  version : Nat
  live : Bool
deriving DecidableEq

variable {κ β : Type} [DecidableEq κ]

/-- A later submission under `k` replaces the entry. -/
def Entry.retire (k : κ) (e : Entry κ β) : Entry κ β :=
  if e.key = k then { e with live := false } else e

def valuesOf (k : κ) (h : List (κ × β)) : List β := (h.filter (·.1 = k)).map (·.2)

/-- The ledger of a history. -/
def ledger : List (κ × β) → List (Entry κ β)
  | [] => []
  | (k, b) :: h => ⟨k, b, (valuesOf k h).length + 1, true⟩ :: (ledger h).map (Entry.retire k)

def current (h : List (κ × β)) : List (Entry κ β) := (ledger h).filter (·.live)

/-- Entries of one key with their versions counted down, the first one live
or not. -/
def numbered (k : κ) : Bool → List β → List (Entry κ β)
  | _, [] => []
  | live, b :: bs => ⟨k, b, bs.length + 1, live⟩ :: numbered k false bs

variable {k : κ} {e : Entry κ β}

@[simp] theorem Entry.retire_key (k : κ) (e : Entry κ β) : (e.retire k).key = e.key := by
  unfold Entry.retire
  split <;> rfl

theorem Entry.retire_of_ne (h : e.key ≠ k) : e.retire k = e := if_neg h

theorem Entry.retire_of_eq (h : e.key = k) :
    e.retire k = { e with live := false } := if_pos h

theorem Entry.retire_of_not_live (h : e.live = false) : e.retire k = e := by
  unfold Entry.retire
  split
  · rw [← h]
  · rfl

theorem map_retire_numbered (k : κ) (live : Bool) (bs : List β) :
    (numbered k live bs).map (Entry.retire k) = numbered k false bs := by
  induction bs generalizing live with
  | nil => rfl
  | cons b bs ih =>
    simp only [numbered, map_cons, ih, Entry.retire_of_eq]

theorem valuesOf_cons_self (k : κ) (b : β) (h : List (κ × β)) :
    valuesOf k ((k, b) :: h) = b :: valuesOf k h := by
  simp [valuesOf]

theorem valuesOf_cons_of_ne {l : κ} (hne : l ≠ k) (b : β) (h : List (κ × β)) :
    valuesOf k ((l, b) :: h) = valuesOf k h := by
  simp [valuesOf, hne]

theorem filter_key_map_retire (k l : κ) (es : List (Entry κ β)) :
    (es.map (Entry.retire l)).filter (·.key = k) =
      (es.filter (·.key = k)).map (Entry.retire l) := by
  induction es with
  | nil => rfl
  | cons e es ih =>
    by_cases he : e.key = k <;> simp [he, ih]

/-- The entries of one key: as many as there were submissions, the latest
with the highest version and live. -/
theorem ledger_filter_key (k : κ) (h : List (κ × β)) :
    (ledger h).filter (·.key = k) = numbered k true (valuesOf k h) := by
  induction h with
  | nil => rfl
  | cons kb h ih =>
    obtain ⟨l, b⟩ := kb
    rw [ledger]
    by_cases hlk : l = k
    · subst hlk
      rw [valuesOf_cons_self, filter_cons_of_pos (by simp), filter_key_map_retire, ih,
        map_retire_numbered, numbered]
    · rw [valuesOf_cons_of_ne hlk, filter_cons_of_neg (by simpa using hlk),
        filter_key_map_retire, ih]
      have hid : ∀ e ∈ numbered k true (valuesOf k h), e.retire l = e := by
        intro e he
        rw [← ih] at he
        have hek : e.key = k := by simpa using (mem_filter.mp he).2
        exact Entry.retire_of_ne (hek ▸ fun h => hlk h.symm)
      rw [map_congr_left hid, map_id']

omit [DecidableEq κ] in
theorem not_live_numbered (k : κ) (bs : List β) : ∀ e ∈ numbered k false bs, e.live = false := by
  induction bs with
  | nil => simp [numbered]
  | cons b bs ih =>
    intro e he
    rcases mem_cons.mp he with rfl | he
    · rfl
    · exact ih e he

/-- A key has at most one live entry, its latest, and that is numbered by how
many values the key has had. -/
theorem current_filter_key (k : κ) (h : List (κ × β)) :
    (current h).filter (·.key = k) =
      ((valuesOf k h).head?.map fun b => ⟨k, b, (valuesOf k h).length, true⟩).toList := by
  rw [current, filter_filter, filter_congr fun _ _ => Bool.and_comm _ _,
    ← filter_filter, ledger_filter_key]
  cases valuesOf k h with
  | nil => rfl
  | cons b bs =>
    rw [numbered, filter_cons_of_pos rfl, filter_eq_nil_iff.mpr]
    · rfl
    · intro e he
      simp [not_live_numbered k bs e he]

theorem current_cons (k : κ) (b : β) (h : List (κ × β)) :
    current ((k, b) :: h) =
      ⟨k, b, (valuesOf k h).length + 1, true⟩ :: (current h).filter (·.key ≠ k) := by
  rw [current, ledger, filter_cons_of_pos rfl, current]
  congr 1
  induction ledger h with
  | nil => rfl
  | cons e es ih =>
    by_cases hk : e.key = k
    · rw [map_cons, Entry.retire_of_eq hk, filter_cons_of_neg (by simp), ih]
      by_cases hl : e.live = true
      · rw [filter_cons_of_pos hl, filter_cons_of_neg (by simp [hk])]
      · rw [filter_cons_of_neg hl]
    · rw [map_cons, Entry.retire_of_ne hk]
      by_cases hl : e.live = true
      · rw [filter_cons_of_pos hl, filter_cons_of_pos hl,
          filter_cons_of_pos (by simpa using hk), ih]
      · rw [filter_cons_of_neg hl, filter_cons_of_neg hl, ih]

theorem current_keys_nodup (h : List (κ × β)) : ((current h).map (·.key)).Nodup := by
  induction h with
  | nil => exact nodup_nil
  | cons kb h ih =>
    obtain ⟨k, b⟩ := kb
    rw [current_cons, map_cons, nodup_cons]
    refine ⟨?_, ?_⟩
    · intro hmem
      obtain ⟨e, he, hek⟩ := mem_map.mp hmem
      exact (by simpa using (mem_filter.mp he).2 : e.key ≠ k) hek
    · exact ih.sublist ((filter_sublist).map _)

theorem map_ledger (h : List (κ × β)) : (ledger h).map (fun e => (e.key, e.val)) = h := by
  induction h with
  | nil => rfl
  | cons kb h ih =>
    rw [ledger, map_cons, map_map]
    congr 1
    refine Eq.trans (map_congr_left fun e _ => ?_) ih
    simp only [Function.comp, Entry.retire]
    split <;> rfl

variable {h : List (κ × β)}

theorem mem_of_mem_ledger (he : e ∈ ledger h) : (e.key, e.val) ∈ h := by
  rw [← map_ledger h]
  exact mem_map_of_mem he

variable {v : β} {vs : List β}

/-- Retiring a key changes its live entry and no other. -/
theorem map_retire_perm (hv : valuesOf k h = v :: vs) {p : Entry κ β → Bool}
    (hp : ∀ e ∈ ledger h, p e = true ↔ e = ⟨k, v, vs.length + 1, true⟩) :
    ((ledger h).map (Entry.retire k)).Perm
      ((ledger h).filter (fun e => !p e) ++ [⟨k, v, vs.length + 1, false⟩]) := by
  have hkey : (ledger h).filter (·.key = k) = numbered k true (v :: vs) := by
    rw [ledger_filter_key, hv]
  -- Every entry of the key but the live one is retired already.
  have hothers : ∀ e ∈ ledger h, e ≠ ⟨k, v, vs.length + 1, true⟩ → e.retire k = e := by
    intro e he hne
    by_cases hek : e.key = k
    · refine Entry.retire_of_not_live ?_
      have : e ∈ numbered k true (v :: vs) := by
        rw [← hkey]
        exact mem_filter.mpr ⟨he, by simpa using hek⟩
      rcases mem_cons.mp this with h | h
      · exact absurd h hne
      · exact not_live_numbered k vs e h
    · exact Entry.retire_of_ne hek
  have hlive : (ledger h).filter p = [⟨k, v, vs.length + 1, true⟩] := by
    have hsub : (ledger h).filter p = (numbered k true (v :: vs)).filter p := by
      rw [← hkey, filter_filter]
      refine filter_congr fun e he => ?_
      rw [Bool.eq_iff_iff, Bool.and_eq_true, decide_eq_true_eq]
      exact ⟨fun h => ⟨h, by rw [(hp e he).mp h]⟩, fun h => h.1⟩
    have hmem : ∀ e ∈ numbered k true (v :: vs), e ∈ ledger h := by
      intro e he
      rw [← hkey] at he
      exact mem_of_mem_filter he
    rw [hsub, numbered, filter_cons_of_pos ((hp _ (hmem _ (by simp [numbered]))).mpr rfl),
      filter_eq_nil_iff.mpr]
    intro e he hpe
    have := (hp e (hmem e (by simp [numbered, he]))).mp hpe
    have hl := not_live_numbered k vs e he
    rw [this] at hl
    cases hl
  have hperm := (filter_append_perm p (ledger h)).map (Entry.retire k)
  refine hperm.symm.trans ?_
  rw [map_append, hlive, map_singleton, Entry.retire, if_pos rfl]
  refine perm_append_comm.trans (List.Perm.append_right _ ?_)
  rw [map_congr_left (g := id) fun e he => ?_, map_id]
  obtain ⟨he, hpe⟩ := mem_filter.mp he
  refine hothers e he fun heq => ?_
  rw [(hp e he).mpr heq] at hpe
  cases hpe

theorem mem_current :
    e ∈ current h ↔ (valuesOf e.key h).head? = some e.val ∧
      e.version = (valuesOf e.key h).length ∧ e.live = true := by
  have hkey : e ∈ current h ↔ e ∈ (current h).filter (·.key = e.key) := by
    simp
  rw [hkey, current_filter_key]
  cases hv : (valuesOf e.key h).head? with
  | none => simp
  | some b =>
    simp only [Option.map_some, Option.toList_some, mem_singleton, Option.some.injEq]
    constructor
    · intro he
      rw [he]
      simp
    · rintro ⟨rfl, hver, hlive⟩
      rw [← hver, ← hlive]

theorem mem_ledger_of_head (hv : valuesOf k h = v :: vs) :
    ⟨k, v, vs.length + 1, true⟩ ∈ ledger h := by
  refine mem_of_mem_filter (p := (·.key = k)) ?_
  rw [ledger_filter_key, hv]
  exact mem_cons_self

omit [DecidableEq κ] in
theorem versions_numbered (k : κ) (live : Bool) (bs : List β) :
    (numbered k live bs).map (·.version) = ((List.range bs.length).map (· + 1)).reverse := by
  induction bs generalizing live with
  | nil => rfl
  | cons b bs ih =>
    rw [numbered, map_cons, ih, length_cons, range_succ, map_append,
      reverse_append]
    rfl

end Corestack.Lib
