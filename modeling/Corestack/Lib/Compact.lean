import Mathlib.Data.List.Count
import Mathlib.Logic.Function.Basic
import Mathlib.Algebra.BigOperators.Group.List.Basic

/-!
# Compaction in place

A table of `h` rows is scanned from its last row to its first. Rows that
are full are dropped, the others are moved down over the gap as the scan
meets them, and the rows left over at the top are blanked. One index reads
and one writes, and the one that writes never overtakes the one that reads.
-/

namespace Corestack.Lib

open Function List

variable {β : Type}

/-- The scan: `src` rows are still to be read, the rows from `dst` on are
done, and `n` full rows have been dropped. -/
def compactLoop (full : β → Bool) : Nat → (Nat → β) → Nat → Nat → (Nat → β) × Nat × Nat
  | 0, a, dst, n => (a, dst, n)
  | src + 1, a, dst, n =>
    if full (a src) then compactLoop full src a dst (n + 1)
    else compactLoop full src (update a (dst - 1) (a src)) (dst - 1) n

/-- The table with its full rows dropped, and their number. -/
def compact (full : β → Bool) (blank : β) (h : Nat) (a : Nat → β) : (Nat → β) × Nat :=
  let (a', dst, n) := compactLoop full h a h 0
  (fun i => if i < dst then blank else a' i, n)

def rowsFrom (a : Nat → β) (i h : Nat) : List β := (List.range' i (h - i)).map a

theorem rowsFrom_eq_cons {a : Nat → β} {i h : Nat} (hi : i < h) :
    rowsFrom a i h = a i :: rowsFrom a (i + 1) h := by
  unfold rowsFrom
  rw [show h - i = (h - (i + 1)) + 1 by omega, List.range'_succ]
  rfl

theorem rowsFrom_congr {a a' : Nat → β} {i h : Nat} (h' : ∀ j, i ≤ j → a j = a' j) :
    rowsFrom a i h = rowsFrom a' i h := by
  refine map_congr_left fun j hj => h' j ?_
  rw [mem_range'_1] at hj
  exact hj.1

/-- The scan leaves the rows it has kept, in their order, at the end. The
invariant: with `src` rows to go, `dst` is ahead of it by the number of rows
dropped, and the rows to go are as they were. -/
theorem compactLoop_spec (full : β → Bool) {h : Nat} {a₀ : Nat → β} :
    ∀ (src : Nat) (a : Nat → β) (dst n : Nat), dst = src + n → dst ≤ h →
      (∀ i < src, a i = a₀ i) →
      rowsFrom a dst h = (rowsFrom a₀ src h).filter (fun x => !full x) →
      ∃ a' n', compactLoop full src a dst n = (a', n', n') ∧ n' ≤ h ∧
        rowsFrom a' n' h = (rowsFrom a₀ 0 h).filter (fun x => !full x) := by
  intro src
  induction src with
  | zero =>
    intro a dst n hdst hle _ hrows
    exact ⟨a, n, by rw [compactLoop, hdst, Nat.zero_add], by omega,
      by rw [← hrows, hdst, Nat.zero_add]⟩
  | succ src ih =>
    intro a dst n hdst hle hsame hrows
    have hread : a src = a₀ src := hsame src (Nat.lt_succ_self _)
    have hnext : rowsFrom a₀ src h = a₀ src :: rowsFrom a₀ (src + 1) h :=
      rowsFrom_eq_cons (by omega)
    rw [compactLoop]
    by_cases hfull : full (a src)
    · rw [if_pos hfull]
      refine ih a dst (n + 1) (by omega) hle (fun i hi => hsame i (by omega)) ?_
      rw [hrows, hnext, ← hread]
      simp [hfull]
    · rw [if_neg hfull]
      refine ih _ (dst - 1) n (by omega) (by omega) (fun i hi => ?_) ?_
      · rw [update_of_ne (by omega)]
        exact hsame i (by omega)
      · rw [rowsFrom_eq_cons (by omega), update_self, hnext, ← hread,
          show dst - 1 + 1 = dst by omega, filter_cons_of_pos (by simpa using hfull),
          ← hrows]
        congr 1
        exact rowsFrom_congr fun j hj => update_of_ne (by omega) _ _

/-- The full rows are gone, the others are where they were among
themselves, and blank rows make up for the full ones. -/
theorem compact_spec (full : β → Bool) (blank : β) (h : Nat) (a : Nat → β) :
    (List.range h).map (compact full blank h a).1 =
        List.replicate (compact full blank h a).2 blank ++
          ((List.range h).map a).filter (fun x => !full x) ∧
      (compact full blank h a).2 = ((List.range h).map a).countP full := by
  obtain ⟨a', n, hloop, hn, hrows⟩ := @compactLoop_spec β full h a h a h 0 rfl (Nat.le_refl h)
    (fun _ _ => rfl) (by simp [rowsFrom])
  have hall : rowsFrom a 0 h = (List.range h).map a := by
    simp [rowsFrom, range_eq_range']
  have hcompact : compact full blank h a = (fun i => if i < n then blank else a' i, n) := by
    simp [compact, hloop]
  rw [hall] at hrows
  rw [hcompact]
  refine ⟨?_, ?_⟩
  · rw [← hrows, range_eq_range', show h = n + (h - n) by omega,
      ← List.range'_append_1, map_append, Nat.zero_add]
    congr 1
    · rw [eq_replicate_iff]
      refine ⟨by simp, fun x hx => ?_⟩
      obtain ⟨i, hi, rfl⟩ := mem_map.mp hx
      rw [mem_range'_1] at hi
      exact if_pos (by omega)
    · unfold rowsFrom
      rw [show n + (h - n) - n = h - n by omega]
      refine map_congr_left fun i hi => if_neg ?_
      rw [mem_range'_1] at hi
      omega
  · have hlen := congrArg List.length hrows
    have hsplit := length_eq_countP_add_countP full (l := (List.range h).map a)
    rw [← countP_eq_length_filter] at hlen
    simp only [rowsFrom, length_map, length_range', length_range] at hlen hsplit
    have hneg : ((List.range h).map a).countP (fun x => !full x) =
        ((List.range h).map a).countP (fun x => decide ¬ full x = true) := by
      simp
    omega

end Corestack.Lib
