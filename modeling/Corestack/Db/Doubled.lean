import Mathlib.Logic.Function.Iterate
import Corestack.Db.Literal

/-!
# Doubled quotes in bounded fields

A text is stored with its quotes doubled and read back into a field of the
size it came from. It comes back as it was if it has no quotes, or if it
fills the field and ends in the quotes it has. Any other text grows quotes
where it had none, and does so again each time it is stored and read.
-/

namespace Corestack.Db

open List Lib

/-! ## Once -/

section Once

variable {n : Nat} [NeZero n]

/-- A text after it was stored and read back. -/
def doubled (s : CStr n) : CStr n := CStr.copy n (quoted s.val)

theorem doubled_val (s : CStr n) : (doubled s).val = (quoted s.val).take (n - 1) := by
  have h0 : 0 ∉ quoted s.val := fun h => s.noNul (mem_quoted.mp h)
  simp only [doubled, CStr.copy, cText_eq_self h0]

/-- No quotes, or a full field with all its quotes at the end. -/
def Unharmed (s : CStr n) : Prop :=
  39 ∉ s.val ∨ s.val.length + 1 = n ∧ ∀ x ∈ s.val.dropWhile (· ≠ 39), x = 39

instance (s : CStr n) : Decidable (Unharmed s) := inferInstanceAs (Decidable (_ ∨ _))

theorem quotes_quoted_cons (m : Nat) (s : Bytes) :
    List.replicate m 39 ++ quoted (39 :: s) = List.replicate (m + 2) 39 ++ quoted s := by
  rw [quoted_cons, if_pos rfl, ← append_assoc]
  rw [show ([39, 39] : Bytes) = List.replicate 2 39 from rfl, replicate_append_replicate]

theorem take_quotes_eq_iff {L : Nat} {s : Bytes} (m : Nat) (hL : s.length ≤ L) :
    (List.replicate (m + 1) 39 ++ quoted s).take L = s ↔
      s.length = L ∧ ∀ x ∈ s, x = 39 := by
  induction s generalizing L m with
  | nil =>
    cases L with
    | zero => simp
    | succ L => simp [replicate_succ]
  | cons y s ih =>
    obtain ⟨L, rfl⟩ : ∃ k, L = k + 1 := ⟨L - 1, by simp at hL; omega⟩
    rw [length_cons] at hL
    rw [replicate_succ, cons_append, take_succ_cons, List.cons.injEq]
    constructor
    · rintro ⟨rfl, h⟩
      rw [quotes_quoted_cons, ih (m + 1) (by omega)] at h
      simpa [h.1] using h.2
    · rintro ⟨hlen, hall⟩
      have hy : y = 39 := hall y (by simp)
      subst hy
      refine ⟨rfl, ?_⟩
      rw [quotes_quoted_cons, ih (m + 1) (by omega)]
      rw [length_cons] at hlen
      exact ⟨by omega, fun x hx => hall x (by simp [hx])⟩

theorem take_quoted_eq_iff {L : Nat} {s : Bytes} (hL : s.length ≤ L) :
    (quoted s).take L = s ↔
      39 ∉ s ∨ s.length = L ∧ ∀ x ∈ s.dropWhile (· ≠ 39), x = 39 := by
  induction s generalizing L with
  | nil => simp [quoted]
  | cons c s ih =>
    obtain ⟨L, rfl⟩ : ∃ k, L = k + 1 := ⟨L - 1, by simp at hL; omega⟩
    rw [length_cons] at hL
    by_cases hc : c = 39
    · subst hc
      have hone := quotes_quoted_cons 0 s
      rw [replicate_zero, nil_append] at hone
      rw [hone, replicate_succ, cons_append, take_succ_cons, List.cons.injEq,
        take_quotes_eq_iff 0 (by omega)]
      simp
    · rw [quoted_cons, if_neg hc, singleton_append, take_succ_cons, List.cons.injEq,
        ih (by omega), dropWhile_cons_of_pos (by simpa using hc)]
      simp [Ne.symm hc]

/-- Which texts come back as they were: those without a quote, and those that
are full and have nothing but quotes from the first one on. -/
theorem doubled_eq_iff (s : CStr n) : doubled s = s ↔ Unharmed s := by
  have hfits := s.fits
  rw [CStr.ext_iff, doubled_val, take_quoted_eq_iff (by omega), Unharmed]
  have hlen : s.val.length = n - 1 ↔ s.val.length + 1 = n := by omega
  rw [hlen]

end Once

/-! ## Again and again -/

section Again

variable {n : Nat} [NeZero n]

/-- Where the texts differ first, the second one has a quote. -/
abbrev Quotier : Bytes → Bytes → Prop := List.Lex fun x y => x ≠ 39 ∧ y = 39

theorem take_quotes_cases {L : Nat} {s : Bytes} (m : Nat) (hL : s.length ≤ L) :
    (List.replicate m 39 ++ quoted s).take L = s ∨
      Quotier s ((List.replicate m 39 ++ quoted s).take L) := by
  induction s generalizing L m with
  | nil =>
    cases h : (List.replicate m 39 ++ quoted []).take L with
    | nil => exact .inl rfl
    | cons x l => exact .inr .nil
  | cons y s ih =>
    obtain ⟨L, rfl⟩ : ∃ k, L = k + 1 := ⟨L - 1, by simp at hL; omega⟩
    by_cases hy : y = 39
    · subst hy
      rw [quotes_quoted_cons, replicate_succ, cons_append, take_succ_cons]
      rcases ih (m + 1) (Nat.le_of_succ_le_succ hL) with h | h
      · exact .inl (by rw [h])
      · exact .inr (.cons h)
    · cases m with
      | zero =>
        rw [replicate_zero, nil_append, quoted_cons, if_neg hy,
          singleton_append, take_succ_cons]
        rcases ih 0 (Nat.le_of_succ_le_succ hL) with h | h
        · exact .inl (by simpa using h)
        · exact .inr (.cons (by simpa using h))
      | succ m =>
        exact .inr (.rel ⟨hy, rfl⟩)

theorem doubled_cases (s : CStr n) : doubled s = s ∨ Quotier s.val (doubled s).val := by
  have hfits := s.fits
  rw [CStr.ext_iff, doubled_val]
  simpa using take_quotes_cases (L := n - 1) (s := s.val) 0 (by omega)

theorem Quotier.trans {a b c : Bytes} (h₁ : Quotier a b) (h₂ : Quotier b c) : Quotier a c :=
  lex_trans (fun hxy hyz => absurd hxy.2 hyz.1) h₁ h₂

theorem Quotier.irrefl (a : Bytes) : ¬ Quotier a a :=
  lex_irrefl (fun _ hx => hx.1 hx.2) a

theorem quotier_iterate {s : CStr n} (h : doubled s ≠ s) (k : Nat) :
    Quotier s.val (doubled^[k + 1] s).val := by
  induction k with
  | zero => exact (doubled_cases s).resolve_left h
  | succ k ih =>
    rw [Function.iterate_succ_apply']
    rcases doubled_cases (doubled^[k + 1] s) with heq | hlt
    · rw [heq]
      exact ih
    · exact ih.trans hlt

/-- However often a text is stored and read, it is the same as before only if
it was so the first time. -/
theorem iterate_doubled_eq_iff (s : CStr n) (k : Nat) :
    doubled^[k + 1] s = s ↔ Unharmed s := by
  rw [← doubled_eq_iff]
  constructor
  · intro h
    by_contra hne
    have hlt := quotier_iterate hne k
    rw [h] at hlt
    exact Quotier.irrefl _ hlt
  · exact fun h => Function.iterate_fixed h _

end Again

end Corestack.Db
