import Mathlib.Data.List.FinRange
import Mathlib.Data.List.Nodup
import Mathlib.Data.Fintype.Pigeonhole

/-!
# Slot tables and unordered member arrays

Two structures that C programs build on fixed arrays: a table whose slots
are searched from the front and recycled, and an array of members from
which one is removed by moving the last one into its place. The order of
such an array means nothing, so what counts is that removal by swap is the
removal of one occurrence up to order.
-/

namespace Corestack.Lib

/-! ## Slot tables -/

section Slots

variable {n : Nat} {α : Type}

/-- The slot at which a loop from slot 0 that looks for `p` stops. -/
def firstSlot (t : Fin n → α) (p : α → Bool) : Option (Fin n) :=
  (List.finRange n).find? fun i => p (t i)

variable {t : Fin n → α} {p : α → Bool} {i : Fin n}

theorem firstSlot_some (h : firstSlot t p = some i) : p (t i) = true := by
  have := List.find?_some h
  simpa using this

theorem firstSlot_none : firstSlot t p = none ↔ ∀ i, p (t i) = false := by
  simp [firstSlot, List.find?_eq_none]

theorem firstSlot_unique (hi : p (t i) = true) (huniq : ∀ k, p (t k) = true → k = i) :
    firstSlot t p = some i := by
  cases h : firstSlot t p with
  | none => simp [firstSlot_none.mp h i] at hi
  | some k => rw [huniq k (firstSlot_some h)]

/-- The array after a loop stored a list in it, from index `k` on. -/
def fill (t : Fin n → α) (k : Nat) (vs : List α) : Fin n → α := fun i =>
  if h : k ≤ (i : Nat) ∧ (i : Nat) - k < vs.length then vs[(i : Nat) - k] else t i

@[simp] theorem fill_nil (t : Fin n → α) (k : Nat) : fill t k [] = t := by
  funext i
  exact dif_neg (by simp)

theorem fill_cons (t : Fin n → α) (k : Nat) (v : α) (vs : List α) :
    fill (fun i => if (i : Nat) = k then v else t i) (k + 1) vs = fill t k (v :: vs) := by
  funext i
  simp only [fill]
  rcases Nat.lt_trichotomy (i : Nat) k with hik | hik | hik
  · rw [dif_neg (by omega), dif_neg (by omega), if_neg (by omega)]
  · simp [hik]
  · by_cases hlt : (i : Nat) - k < vs.length + 1
    · rw [dif_pos (by omega), dif_pos (by simp; omega)]
      have hsub : (i : Nat) - k = (i - (k + 1)) + 1 := by omega
      simp [hsub]
    · rw [dif_neg (by omega), dif_neg (by simp; omega), if_neg (by omega)]

theorem fill_zero (t : Fin n → α) {vs : List α} (hi : (i : Nat) < vs.length) :
    fill t 0 vs i = vs[(i : Nat)] :=
  dif_pos ⟨Nat.zero_le _, by simpa using hi⟩

end Slots

/-! ## The smallest unused number -/

/-- `for (cand = start;; cand++) if (!used(cand)) break;`, cut off after
`fuel` candidates. -/
def firstUnused (used : Int → Bool) : Nat → Int → Int
  | 0, cand => cand
  | fuel + 1, cand => if used cand then firstUnused used fuel (cand + 1) else cand

theorem le_firstUnused (used : Int → Bool) (fuel : Nat) (cand : Int) :
    cand ≤ firstUnused used fuel cand := by
  induction fuel generalizing cand with
  | zero => exact le_refl cand
  | succ fuel ih =>
    unfold firstUnused
    split
    · have := ih (cand + 1)
      omega
    · exact le_refl cand

/-- The loop stops at a used number only when its fuel ran out on used
numbers. -/
theorem used_of_firstUnused {used : Int → Bool} {fuel : Nat} {cand : Int}
    (h : used (firstUnused used fuel cand) = true) (k : Nat) (hk : k ≤ fuel) :
    used (cand + k) = true := by
  induction fuel generalizing cand k with
  | zero =>
    obtain rfl : k = 0 := by omega
    simpa [firstUnused] using h
  | succ fuel ih =>
    unfold firstUnused at h
    split at h
    · rename_i hc
      cases k with
      | zero => simpa using hc
      | succ k =>
        have := ih h k (by omega)
        rwa [show cand + ((k + 1 : Nat) : Int) = cand + 1 + (k : Int) by push_cast; omega]
    · rename_i hc
      exact absurd h hc

/-- With more candidates than slots, the loop ends at a number that no slot
holds. -/
theorem firstUnused_unused {n : Nat} {used : Int → Bool} {id : Fin n → Int} {cand : Int}
    (hused : ∀ c, used c = true → ∃ i, id i = c) :
    used (firstUnused used n cand) = false := by
  by_contra h
  have hall := used_of_firstUnused (Bool.eq_true_of_not_eq_false h)
  have hsome : ∀ k : Fin (n + 1), ∃ i, id i = cand + (k : Nat) := fun k =>
    hused _ (hall k (by omega))
  choose slot hslot using hsome
  obtain ⟨k, k', hne, heq⟩ := Fintype.exists_ne_map_eq_of_card_lt slot (by simp)
  apply hne
  have h1 := hslot k
  have h2 := hslot k'
  rw [heq] at h1
  exact Fin.ext (by omega)

/-- A number that is asked for and not in use, or else the first one that is
not in use: no slot holds it. `find` looks for the slot with a number above
0. -/
theorem newNumber_unused {find : Int → Option (Fin n)} {id : Fin n → Int}
    (hsome : ∀ {c i}, find c = some i → id i = c)
    (hnone : ∀ {c}, 0 < c → find c = none → ∀ i, id i ≠ c) {want : Int} (hwant : 0 ≤ want)
    (hfind : want = 0 ∨ find want = none) :
    0 < (if want = 0 then firstUnused (fun c => (find c).isSome) n 1 else want) ∧
      ∀ i, id i ≠ if want = 0 then firstUnused (fun c => (find c).isSome) n 1 else want := by
  by_cases hzero : want = 0
  · simp only [if_pos hzero]
    have hpos := le_firstUnused (fun c => (find c).isSome) n 1
    have hunused := @firstUnused_unused n (fun c => (find c).isSome) id 1 fun c hc => by
      obtain ⟨i, hi⟩ := Option.isSome_iff_exists.mp hc
      exact ⟨i, hsome hi⟩
    exact ⟨by omega, hnone (by omega) (Option.isNone_iff_eq_none.mp
      (Option.isSome_eq_false_iff.mp hunused))⟩
  · simp only [if_neg hzero]
    exact ⟨by omega, hnone (by omega) (hfind.resolve_left hzero)⟩

/-! ## Member arrays -/

section Members

variable {α : Type}

theorem getLast?_append_dropLast_perm (as : List α) :
    (as.getLast?.toList ++ as.dropLast).Perm as := by
  cases h : as.getLast? with
  | none => simp [List.getLast?_eq_none_iff.mp h]
  | some a =>
    obtain ⟨bs, rfl⟩ := List.getLast?_eq_some_iff.mp h
    simpa using (List.perm_append_singleton a bs).symm

variable [DecidableEq α]

/-- The array from its first `a` on: the last entry moves into the place of
the `a`, and the array ends one entry earlier. -/
def swapRemove : List α → α → List α
  | [], _ => []
  | b :: bs, a => if b = a then bs.getLast?.toList ++ bs.dropLast else b :: swapRemove bs a

theorem swapRemove_perm (as : List α) (a : α) : (swapRemove as a).Perm (as.erase a) := by
  induction as with
  | nil => exact List.Perm.refl _
  | cons b bs ih =>
    unfold swapRemove
    by_cases hba : b = a
    · rw [if_pos hba, hba, List.erase_cons_head]
      exact getLast?_append_dropLast_perm bs
    · rw [if_neg hba, List.erase_cons_tail (by simpa using hba)]
      exact ih.cons b

variable {as : List α}

theorem mem_swapRemove (hnd : as.Nodup) {a b : α} : b ∈ swapRemove as a ↔ b ≠ a ∧ b ∈ as := by
  rw [(swapRemove_perm as a).mem_iff, hnd.mem_erase_iff]

theorem nodup_swapRemove (hnd : as.Nodup) (a : α) : (swapRemove as a).Nodup :=
  (swapRemove_perm as a).nodup_iff.mpr (hnd.erase a)

end Members

end Corestack.Lib
