import Corestack.Db.Reply

/-!
# SQL literals

`db_quote` of `schema.c` puts a text between quotes and doubles the quotes
in it. SimpleDB takes the literal as it stands between its quotes, so a
doubled quote is stored doubled.
-/

namespace Corestack.Db

open List Lib

/-- The text `db_quote` puts between the quotes, as far as `room` goes. -/
def quoteLoop (room : Nat) : Bytes → Bytes
  | [] => []
  | c :: s =>
    if c = 39 then if 2 ≤ room then 39 :: 39 :: quoteLoop (room - 2) s else []
    else if 1 ≤ room then c :: quoteLoop (room - 1) s else []

def dbQuote (cap : Nat) (s : Bytes) : Bytes :=
  if cap < 3 then [] else 39 :: quoteLoop (cap - 3) s ++ [39]

/-- A literal as it is stored. -/
def quoted (s : Bytes) : Bytes := s.flatMap fun c => if c = 39 then [39, 39] else [c]

theorem quoted_cons (c : UInt8) (s : Bytes) :
    quoted (c :: s) = (if c = 39 then [39, 39] else [c]) ++ quoted s := rfl

theorem length_quoted_le (s : Bytes) : (quoted s).length ≤ 2 * s.length := by
  induction s with
  | nil => simp [quoted]
  | cons c s ih =>
    rw [quoted_cons]
    split <;> simp <;> omega

/-- With enough room the literal is complete. -/
theorem quoteLoop_eq_quoted {room : Nat} {s : Bytes} (h : 2 * s.length ≤ room) :
    quoteLoop room s = quoted s := by
  induction s generalizing room with
  | nil => rfl
  | cons c s ih =>
    simp only [length_cons] at h
    rw [quoteLoop, quoted_cons]
    by_cases hc : c = 39
    · rw [if_pos hc, if_pos hc, if_pos (by omega), ih (by omega)]
      rfl
    · rw [if_neg hc, if_neg hc, if_pos (by omega), ih (by omega)]
      rfl

theorem mem_quoted {c : UInt8} {s : Bytes} : c ∈ quoted s ↔ c ∈ s := by
  induction s with
  | nil => simp [quoted]
  | cons d s ih =>
    rw [quoted_cons, mem_append, ih, mem_cons]
    split
    · rename_i hd
      simp [hd]
    · simp

theorem quoted_eq_self {s : Bytes} (h : 39 ∉ s) : quoted s = s := by
  induction s with
  | nil => rfl
  | cons c s ih =>
    simp only [mem_cons, not_or] at h
    rw [quoted_cons, if_neg (Ne.symm h.1), ih h.2]
    rfl

theorem quoted_injective : Function.Injective quoted := by
  intro a
  induction a with
  | nil =>
    intro b h
    cases b with
    | nil => rfl
    | cons d b =>
      rw [quoted_cons] at h
      split at h <;> cases h
  | cons c a ih =>
    intro b h
    cases b with
    | nil =>
      rw [quoted_cons] at h
      split at h <;> cases h
    | cons d b =>
      rw [quoted_cons, quoted_cons] at h
      by_cases hc : c = 39 <;> by_cases hd : d = 39 <;>
        simp only [hc, hd, if_true, if_false, cons_append, nil_append,
          List.cons.injEq, true_and] at h
      · rw [hc, hd, ih h]
      · exact absurd h.1.symm hd
      · exact h.1.elim
      · rw [h.1, ih h.2]

@[simp] theorem quoted_inj {a b : Bytes} : quoted a = quoted b ↔ a = b :=
  quoted_injective.eq_iff

/-- `strpbrk(sql, "\n\r") != NULL`: such a statement is never sent. -/
def breaksLine (s : Bytes) : Bool := s.any fun c => c = lf || c = cr

theorem breaksLine_eq_false {s : Bytes} : breaksLine s = false ↔ lf ∉ s ∧ cr ∉ s := by
  simp only [breaksLine, any_eq_false, Bool.or_eq_true, decide_eq_true_eq, not_or]
  exact ⟨fun h => ⟨fun hx => (h _ hx).1 rfl, fun hx => (h _ hx).2 rfl⟩,
    fun h c hc => ⟨fun heq => h.1 (heq ▸ hc), fun heq => h.2 (heq ▸ hc)⟩⟩

theorem breaksLine_append (a b : Bytes) :
    breaksLine (a ++ b) = (breaksLine a || breaksLine b) := any_append

theorem breaksLine_quoted (s : Bytes) : breaksLine (quoted s) = breaksLine s := by
  rw [Bool.eq_iff_iff]
  simp only [breaksLine, any_eq_true, mem_quoted]

theorem breaksLine_dbQuote {cap : Nat} {s : Bytes} (h : 2 * s.length + 3 ≤ cap) :
    breaksLine (dbQuote cap s) = breaksLine s := by
  rw [dbQuote, if_neg (by omega), quoteLoop_eq_quoted (by omega), ← breaksLine_quoted s]
  simp [breaksLine, lf, cr]

/-- The number literal of an `insert`: digits that fit an `int`. A minus sign
would make it an expression, which the parser refuses. -/
def readInt (s : Bytes) : Option Int :=
  if s ≠ [] ∧ s.all isDigit ∧ digitsVal s < 2 ^ 31 then some (digitsVal s) else none

theorem readInt_fmtInt (v : Int) :
    readInt (fmtInt v) = if 0 ≤ v ∧ v < 2 ^ 31 then some v else none := by
  cases v with
  | ofNat n =>
    have hall : (fmtNat n).all isDigit = true := all_eq_true.mpr fun c => fmtNat_isDigit
    have hcond : (n < 2 ^ 31) ↔ (0 ≤ Int.ofNat n ∧ Int.ofNat n < 2 ^ 31) := by
      simp only [Int.ofNat_eq_natCast]
      omega
    simp only [readInt, fmtInt, digitsVal_fmtNat, fmtNat_ne_nil, ne_eq, not_false_eq_true,
      hall, true_and, hcond]
    rfl
  | negSucc n =>
    simp [readInt, fmtInt, isDigit]

theorem readInt_fmtInt_some {v w : Int} (h : readInt (fmtInt v) = some w) :
    w = v ∧ 0 ≤ v ∧ v < 2 ^ 31 := by
  rw [readInt_fmtInt] at h
  split at h
  · cases h
    exact ⟨rfl, ‹_›⟩
  · cases h

theorem readInt_nonneg {s : Bytes} {v : Int} (h : readInt s = some v) : 0 ≤ v ∧ v < 2 ^ 31 := by
  unfold readInt at h
  split at h
  · cases h
    omega
  · cases h

end Corestack.Db
