import Mathlib.Data.Nat.Digits.Lemmas
import Mathlib.Data.List.Infix
import Mathlib.Data.List.TakeWhile
import Mathlib.Tactic.IntervalCases

/-!
# C text

Byte strings as a C program handles them: strings of bounded size, text
cut at a separator and joined again, and decimal numbers printed by `%d`
and read back by `strtol` and `atoi`.
-/

namespace Corestack.Lib

open List

/-- A byte string. -/
abbrev Bytes := List UInt8

/-- The bytes of a string literal. -/
def bytes (s : String) : Bytes := s.toByteArray.data.toList

/-- The part of a buffer that a C string function sees. -/
def cText (s : Bytes) : Bytes := s.takeWhile (· ≠ 0)

/-- A C string that fits into a `char[n]`, its terminating NUL included. -/
structure CStr (n : Nat) where
  val : Bytes
  fits : val.length < n
  noNul : 0 ∉ val
deriving DecidableEq

/-! The sizes of buffers. An instance with a name of its own keeps the
size's proof out of the definitions that use it. -/

instance neZero16 : NeZero 16 := ⟨by simp⟩
instance neZero24 : NeZero 24 := ⟨by simp⟩
instance neZero32 : NeZero 32 := ⟨by simp⟩
instance neZero33 : NeZero 33 := ⟨by simp⟩
instance neZero64 : NeZero 64 := ⟨by simp⟩
instance neZero65 : NeZero 65 := ⟨by simp⟩
instance neZero256 : NeZero 256 := ⟨by simp⟩
instance neZero320 : NeZero 320 := ⟨by simp⟩

theorem zero_notMem_cText (s : Bytes) : 0 ∉ cText s := by
  intro h0
  have := mem_takeWhile_imp h0
  simp at this

variable {s : Bytes}

theorem cText_eq_self (h0 : 0 ∉ s) : cText s = s :=
  takeWhile_eq_self_iff.mpr fun _ hc => decide_eq_true fun heq => h0 (heq ▸ hc)

namespace CStr

variable {n : Nat}

/-- `snprintf(dst, n, "%s", s)`, and equally a bounded `memcpy` that is
then terminated: the text is cut to the buffer. -/
def copy (n : Nat) [NeZero n] (s : Bytes) : CStr n where
  val := (cText s).take (n - 1)
  fits := by
    have := Nat.pos_of_ne_zero (NeZero.ne n)
    simp only [length_take]
    omega
  noNul := fun h0 => zero_notMem_cText s (mem_of_mem_take h0)

instance [NeZero n] : Inhabited (CStr n) := ⟨copy n []⟩

theorem copy_val [NeZero n] {s : Bytes} (hlen : s.length < n) (h0 : 0 ∉ s) :
    (copy n s).val = s := by
  simp only [copy, cText_eq_self h0]
  exact take_of_length_le (by omega)

theorem mem_of_mem_copy [NeZero n] {s : Bytes} {c : UInt8} (hc : c ∈ (copy n s).val) : c ∈ s :=
  (takeWhile_sublist _).subset (mem_of_mem_take hc)

@[ext] theorem ext {a b : CStr n} (h : a.val = b.val) : a = b := by
  cases a; cases b; cases h; rfl

@[simp] theorem copy_self [NeZero n] (s : CStr n) : copy n s.val = s :=
  CStr.ext (copy_val s.fits s.noNul)

end CStr

/-! ## Cutting text at a separator -/

/-- `s` cut at every `sep`: always at least one piece. -/
def split (sep : UInt8) : Bytes → List Bytes
  | [] => [[]]
  | c :: s =>
    if c = sep then [] :: split sep s
    else match split sep s with
      | [] => [[c]]
      | p :: ps => (c :: p) :: ps

/-- The pieces put together again, with `sep` between them. -/
def join (sep : UInt8) : List Bytes → Bytes
  | [] => []
  | [p] => p
  | p :: q :: ps => p ++ sep :: join sep (q :: ps)

variable {sep : UInt8} {p : Bytes}

theorem takeWhile_ne_append (hp : sep ∉ p) (rest : Bytes) :
    (p ++ sep :: rest).takeWhile (· ≠ sep) = p := by
  have hall : ∀ c ∈ p, decide (c ≠ sep) = true := fun c hc =>
    decide_eq_true fun heq => hp (heq ▸ hc)
  rw [takeWhile_append_of_pos hall]
  simp

theorem takeWhile_ne_eq_self (hs : sep ∉ s) : s.takeWhile (· ≠ sep) = s :=
  takeWhile_eq_self_iff.mpr fun _ hc => decide_eq_true fun heq => hs (heq ▸ hc)

variable {c : UInt8} {rest : Bytes}

theorem drop_takeWhile_ne :
    s.drop (s.takeWhile (· ≠ sep)).length = c :: rest ↔
      c = sep ∧ sep ∉ s.takeWhile (· ≠ sep) ∧ s = s.takeWhile (· ≠ sep) ++ sep :: rest := by
  by_cases hmem : sep ∈ s
  · obtain ⟨p, behind, rfl, hp⟩ := eq_append_cons_of_mem hmem
    rw [takeWhile_ne_append hp, drop_left, List.cons.injEq, append_cancel_left_eq,
      List.cons.injEq]
    constructor
    · rintro ⟨rfl, rfl⟩
      exact ⟨rfl, hp, rfl, rfl⟩
    · rintro ⟨rfl, -, -, rfl⟩
      exact ⟨rfl, rfl⟩
  · rw [takeWhile_ne_eq_self hmem, drop_length]
    simp

theorem split_ne_nil (sep : UInt8) (s : Bytes) : split sep s ≠ [] := by
  cases s with
  | nil => simp [split]
  | cons c s =>
    rw [split]
    split <;> [simp; (split <;> simp)]

theorem split_cons_of_ne (hc : c ≠ sep) {ps : List Bytes} (hs : split sep s = p :: ps) :
    split sep (c :: s) = (c :: p) :: ps := by
  simp only [split, hc, if_false, hs]

theorem split_piece (hp : sep ∉ p) : split sep p = [p] := by
  induction p with
  | nil => rfl
  | cons c p ih =>
    simp only [mem_cons, not_or] at hp
    exact split_cons_of_ne (Ne.symm hp.1) (ih hp.2)

theorem split_append (hp : sep ∉ p) (s : Bytes) : split sep (p ++ sep :: s) = p :: split sep s := by
  induction p with
  | nil => simp [split]
  | cons c p ih =>
    simp only [mem_cons, not_or] at hp
    exact split_cons_of_ne (Ne.symm hp.1) (ih hp.2)

/-- Cutting undoes joining when no piece contains the separator. -/
theorem split_join :
    ∀ {ps : List Bytes}, ps ≠ [] → (∀ p ∈ ps, sep ∉ p) → split sep (join sep ps) = ps
  | [], hne, _ => absurd rfl hne
  | [p], _, hps => split_piece (hps p (by simp))
  | p :: q :: ps, _, hps => by
    rw [join, split_append (hps p (by simp)),
      split_join (by simp) (fun x hx => hps x (by simp_all))]

theorem join_split (sep : UInt8) (s : Bytes) : join sep (split sep s) = s := by
  induction s with
  | nil => rfl
  | cons c s ih =>
    obtain ⟨p, ps, hs⟩ := exists_cons_of_ne_nil (split_ne_nil sep s)
    by_cases hc : c = sep
    · subst hc
      rw [split, if_pos rfl, hs, join, ← hs, ih, nil_append]
    · rw [split_cons_of_ne hc hs]
      rw [hs] at ih
      cases ps with
      | nil => rw [join] at ih ⊢; rw [ih]
      | cons q ps => rw [join] at ih ⊢; rw [cons_append, ih]

theorem dropLast_split_take_prefix (sep : UInt8) :
    ∀ (s : Bytes) (m : Nat), (split sep (s.take m)).dropLast <+: split sep s
  | s, 0 => by simp [split]
  | [], m + 1 => by simp [split]
  | c :: s, m + 1 => by
    have ih := dropLast_split_take_prefix sep s m
    obtain ⟨p, ps, hs⟩ := exists_cons_of_ne_nil (split_ne_nil sep s)
    obtain ⟨q, qs, ht⟩ := exists_cons_of_ne_nil (split_ne_nil sep (s.take m))
    rw [take_succ_cons]
    by_cases hc : c = sep
    · subst hc
      simp only [split, if_true, ht, dropLast_cons_cons]
      rw [ht] at ih
      exact (prefix_cons_inj _).mpr ih
    · rw [split_cons_of_ne hc hs, split_cons_of_ne hc ht]
      rw [hs, ht] at ih
      cases qs with
      | nil => simp
      | cons r rs =>
        rw [dropLast_cons_cons] at ih ⊢
        have h := cons_prefix_cons.mp ih
        exact cons_prefix_cons.mpr ⟨by rw [h.1], h.2⟩

variable {X : List Bytes}

theorem join_append (sep : UInt8) {Y : List Bytes} (hX : X ≠ []) (hY : Y ≠ []) :
    join sep (X ++ Y) = join sep X ++ sep :: join sep Y := by
  induction X with
  | nil => exact absurd rfl hX
  | cons p X ih =>
    obtain ⟨q, Y, rfl⟩ := exists_cons_of_ne_nil hY
    cases X with
    | nil => rfl
    | cons r X =>
      have := ih (by simp)
      simp only [cons_append, join] at this ⊢
      rw [this]
      simp

theorem split_join_append (hne : X ≠ []) (hX : ∀ p ∈ X, sep ∉ p) (s : Bytes) :
    split sep (join sep X ++ sep :: s) = X ++ split sep s := by
  induction X with
  | nil => exact absurd rfl hne
  | cons p X ih =>
    have hp := hX p (by simp)
    cases X with
    | nil => exact split_append hp s
    | cons q X =>
      rw [join, append_assoc, cons_append, split_append hp,
        ih (by simp) fun x hx => hX x (mem_cons_of_mem _ hx)]
      rfl

theorem split_take_join (hne : X ≠ []) (hX : ∀ p ∈ X, sep ∉ p) {m : Nat}
    (hm : (join sep X).length ≤ m) (Y : List Bytes) :
    ∃ Z, split sep ((join sep (X ++ Y)).take m) = X ++ Z := by
  by_cases hY : Y = []
  · subst hY
    exact ⟨[], by rw [append_nil, take_of_length_le hm, split_join hne hX]⟩
  · rw [join_append sep hne hY, take_append, take_of_length_le hm]
    cases m - (join sep X).length with
    | zero => exact ⟨[], by rw [take_zero, append_nil, split_join hne hX]; simp⟩
    | succ k => exact ⟨_, by rw [take_succ_cons]; exact split_join_append hne hX _⟩

theorem mem_join (hc : c ≠ sep) :
    ∀ {ps : List Bytes}, c ∈ join sep ps → ∃ p ∈ ps, c ∈ p
  | [], h => by simp [join] at h
  | [p], h => ⟨p, by simp, h⟩
  | p :: q :: ps, h => by
    rw [join, mem_append, mem_cons] at h
    rcases h with h | h | h
    · exact ⟨p, by simp, h⟩
    · exact absurd h hc
    · obtain ⟨x, hx, hcx⟩ := mem_join hc h
      exact ⟨x, mem_cons_of_mem _ hx, hcx⟩

theorem mem_of_mem_split (hp : p ∈ split sep s) (hc : c ∈ p) : c ∈ s := by
  induction s generalizing p with
  | nil =>
    rw [split, mem_singleton] at hp
    exact hp ▸ hc
  | cons d s ih =>
    obtain ⟨q, qs, hq⟩ := exists_cons_of_ne_nil (split_ne_nil sep s)
    rw [hq] at ih
    simp only [split, hq] at hp
    split at hp
    · rcases mem_cons.mp hp with rfl | hp
      · cases hc
      · exact mem_cons_of_mem _ (ih hp hc)
    · rcases mem_cons.mp hp with rfl | hp
      · rcases mem_cons.mp hc with rfl | hc
        · exact mem_cons_self
        · exact mem_cons_of_mem _ (ih mem_cons_self hc)
      · exact mem_cons_of_mem _ (ih (mem_cons_of_mem _ hp) hc)

theorem notMem_of_mem_split (hp : p ∈ split sep s) : sep ∉ p := by
  induction s generalizing p with
  | nil =>
    rw [split, mem_singleton] at hp
    rw [hp]
    exact not_mem_nil
  | cons d s ih =>
    obtain ⟨q, qs, hq⟩ := exists_cons_of_ne_nil (split_ne_nil sep s)
    rw [hq] at ih
    by_cases hd : d = sep
    · rw [split, if_pos hd, hq] at hp
      rcases mem_cons.mp hp with rfl | hp
      · exact not_mem_nil
      · exact ih hp
    · rw [split_cons_of_ne hd hq] at hp
      rcases mem_cons.mp hp with rfl | hp
      · exact fun h => (mem_cons.mp h).elim (fun h => hd h.symm) (ih mem_cons_self)
      · exact ih (mem_cons_of_mem _ hp)

theorem length_join_cons (sep : UInt8) (p : Bytes) (ps : List Bytes) :
    (join sep (p :: ps)).length = p.length + (ps.map fun q => q.length + 1).sum := by
  induction ps generalizing p with
  | nil => simp [join]
  | cons q ps ih =>
    simp only [join, length_append, length_cons, ih, map_cons, sum_cons]
    omega

/-! ## Hex -/

/-- The lower case digit of a nibble. -/
def hexChar (n : UInt8) : UInt8 := if n < 10 then 48 + n else 97 + (n - 10)

def hexEncode (s : Bytes) : Bytes :=
  s.flatMap fun (c : UInt8) => [hexChar (c >>> 4), hexChar (c &&& 15)]

theorem length_hexEncode (s : Bytes) : (hexEncode s).length = 2 * s.length := by
  induction s with
  | nil => rfl
  | cons c s ih =>
    rw [hexEncode] at ih
    rw [hexEncode, flatMap_cons, length_append, ih]
    simp only [length_cons, length_nil]
    omega

/-! ## Decimal numbers -/

def isDigit (c : UInt8) : Bool := 48 ≤ c && c ≤ 57

/-- `isspace` in the C locale. -/
def isSpace (c : UInt8) : Bool := c = 32 || 9 ≤ c && c ≤ 13

/-- The digits of a natural number, most significant first. -/
def fmtNat (n : Nat) : Bytes :=
  if n = 0 then [48] else ((Nat.digits 10 n).map fun d => 48 + d.toUInt8).reverse

def fmtInt : Int → Bytes
  | .ofNat n => fmtNat n
  | .negSucc n => 45 :: fmtNat (n + 1)

def digitsVal (ds : Bytes) : Nat := ds.foldl (fun v c => 10 * v + (c.toNat - 48)) 0

/-- `strtol(s, &end, 10)` with a 64-bit `long`: the value and the text at
`end`, which is all of `s` when there is no number. -/
def strtol (s : Bytes) : Int × Bytes :=
  let t := s.dropWhile isSpace
  let neg := t.head? = some 45
  let u := if neg ∨ t.head? = some 43 then t.tail else t
  let ds := u.takeWhile isDigit
  if ds = [] then (0, s)
  else
    let v : Int := if neg then - (digitsVal ds : Int) else digitsVal ds
    (max (-(2 ^ 63)) (min v (2 ^ 63 - 1)), u.dropWhile isDigit)

/-- Conversion to a 32-bit `int`. -/
def toInt32 (v : Int) : Int := v.bmod (2 ^ 32)

def atoi (s : Bytes) : Int := toInt32 (strtol s).1

variable {d : Nat}

theorem isDigit_digit (hd : d < 10) : isDigit (48 + d.toUInt8) = true := by
  interval_cases d <;> rfl

theorem digit_val (hd : d < 10) : (48 + d.toUInt8).toNat - 48 = d := by
  interval_cases d <;> rfl

variable {n : Nat}

theorem fmtNat_isDigit (hc : c ∈ fmtNat n) : isDigit c = true := by
  unfold fmtNat at hc
  split at hc
  · simp only [mem_singleton] at hc
    subst hc; rfl
  · simp only [mem_reverse, mem_map] at hc
    obtain ⟨d, hd, rfl⟩ := hc
    exact isDigit_digit (Nat.digits_lt_base (by norm_num) hd)

theorem fmtNat_ne_nil (n : Nat) : fmtNat n ≠ [] := by
  unfold fmtNat
  split
  · simp
  · rename_i hn
    simpa using Nat.digits_ne_nil_iff_ne_zero.mpr hn

theorem digitsVal_digits {ds : List Nat} (hds : ∀ d ∈ ds, d < 10) :
    digitsVal (ds.map fun d => 48 + d.toUInt8).reverse = Nat.ofDigits 10 ds := by
  rw [digitsVal, foldl_reverse, Nat.ofDigits_eq_foldr]
  induction ds with
  | nil => rfl
  | cons d ds ih =>
    simp only [map_cons, foldr_cons, digit_val (hds d (by simp)),
      ih fun x hx => hds x (mem_cons_of_mem _ hx)]
    simp [Nat.add_comm]

theorem digitsVal_fmtNat (n : Nat) : digitsVal (fmtNat n) = n := by
  unfold fmtNat
  split
  · rename_i hn
    subst hn; rfl
  · rw [digitsVal_digits fun d hd => Nat.digits_lt_base (by norm_num) hd, Nat.ofDigits_digits]

theorem length_fmtNat_le {k : Nat} (hk : 0 < k) (hn : n < 10 ^ k) : (fmtNat n).length ≤ k := by
  unfold fmtNat
  split
  · exact hk
  · simpa using (Nat.digits_length_le_iff (by norm_num) n).mpr hn

theorem digit_le (hc : isDigit c = true) : c.toNat - 48 ≤ 9 := by
  simp only [isDigit, Bool.and_eq_true, decide_eq_true_eq, UInt8.le_iff_toNat_le] at hc
  have h : (57 : UInt8).toNat = 57 := rfl
  omega

theorem digit_back (hc : isDigit c = true) : 48 + (c.toNat - 48).toUInt8 = c := by
  have hall : ∀ n < 256, isDigit (.ofNat n) = true →
      48 + ((UInt8.ofNat n).toNat - 48).toUInt8 = .ofNat n := by decide +kernel
  have := hall c.toNat c.toNat_lt
  rw [UInt8.ofNat_toNat] at this
  exact this hc

variable {ds : Bytes}

theorem fmtNat_digitsVal (hne : ds ≠ []) (hds : ∀ c ∈ ds, isDigit c = true)
    (hlead : ds = [48] ∨ ds.head? ≠ some 48) : fmtNat (digitsVal ds) = ds := by
  rcases hlead with rfl | hlead
  · rfl
  have hlt : ∀ d ∈ (ds.map fun c => c.toNat - 48).reverse, d < 10 := by
    intro d hd
    obtain ⟨c, hc, rfl⟩ := mem_map.mp (mem_reverse.mp hd)
    exact Nat.lt_succ_of_le (digit_le (hds c hc))
  have hback : (((ds.map fun c => c.toNat - 48).reverse).map fun d => 48 + d.toUInt8).reverse =
      ds := by
    rw [map_reverse, reverse_reverse, map_map]
    exact (map_congr_left fun c hc => digit_back (hds c hc)).trans (map_id ds)
  have hlast : ∀ h : (ds.map fun c => c.toNat - 48).reverse ≠ [],
      (ds.map fun c => c.toNat - 48).reverse.getLast h ≠ 0 := by
    obtain ⟨c, cs, rfl⟩ := exists_cons_of_ne_nil hne
    intro h hzero
    rw [getLast_reverse, head_map, head_cons] at hzero
    have hc := digit_back (hds c mem_cons_self)
    rw [hzero] at hc
    exact hlead (congrArg some hc.symm)
  have hval : digitsVal ds = Nat.ofDigits 10 (ds.map fun c => c.toNat - 48).reverse := by
    rw [← digitsVal_digits hlt, hback]
  have hdigits := Nat.digits_ofDigits 10 (by norm_num) _ hlt hlast
  rw [← hval] at hdigits
  have hpos : digitsVal ds ≠ 0 := by
    intro hzero
    rw [hzero, Nat.digits_zero] at hdigits
    exact hne (by simpa using hdigits.symm)
  rw [fmtNat, if_neg hpos, hdigits, hback]

theorem head?_fmtNat_ne (hn : n ≠ 0) : (fmtNat n).head? ≠ some 48 := by
  intro h
  rw [fmtNat, if_neg hn, List.head?_reverse, List.getLast?_map, Option.map_eq_some_iff] at h
  obtain ⟨d, hd, hzero⟩ := h
  have hne : Nat.digits 10 n ≠ [] := Nat.digits_ne_nil_iff_ne_zero.mpr hn
  rw [List.getLast?_eq_getLast_of_ne_nil hne, Option.some.injEq] at hd
  have hlast := Nat.getLast_digit_ne_zero 10 hn
  have hlt : d < 10 := Nat.digits_lt_base (by norm_num) (hd ▸ getLast_mem hne)
  rw [hd] at hlast
  have hval := digit_val hlt
  rw [hzero] at hval
  exact hlast hval.symm

/-- One digit more, guarded before the multiplication. -/
def guardedDigit (max value : Nat) (c : UInt8) : Option Nat :=
  if isDigit c then
    let digit := c.toNat - 48
    if (max - digit) / 10 < value then none else some (value * 10 + digit)
  else none

theorem le_foldl_digits (ds : Bytes) (v : Nat) :
    v ≤ ds.foldl (fun v c => 10 * v + (c.toNat - 48)) v := by
  induction ds generalizing v with
  | nil => exact le_rfl
  | cons c ds ih => exact le_trans (by show v ≤ 10 * v + _; omega) (ih _)

theorem foldlM_guardedDigit {max : Nat} (hmax : 9 ≤ max) {w : Nat} :
    ∀ {v : Nat}, v ≤ max → (ds.foldlM (guardedDigit max) v = some w ↔
      (∀ c ∈ ds, isDigit c = true) ∧
        ds.foldl (fun v c => 10 * v + (c.toNat - 48)) v = w ∧ w ≤ max) := by
  induction ds with
  | nil =>
    intro v hv
    simp only [foldlM_nil, foldl_nil, pure, Option.some.injEq]
    exact ⟨fun h => ⟨by simp, h, h ▸ hv⟩, fun h => h.2.1⟩
  | cons c ds ih =>
    intro v hv
    rw [foldlM_cons, foldl_cons, forall_mem_cons]
    cases hc : isDigit c with
    | false => simp [guardedDigit, hc]
    | true =>
      have hdigit := digit_le hc
      have hmono := le_foldl_digits ds (10 * v + (c.toNat - 48))
      simp only [guardedDigit, hc, if_true, true_and]
      by_cases hguard : (max - (c.toNat - 48)) / 10 < v
      · rw [if_pos hguard]
        refine ⟨fun h => (by cases h), fun ⟨_, hw, hle⟩ => ?_⟩
        omega
      · rw [if_neg hguard, Nat.mul_comm]
        exact ih (by omega)

theorem not_isSpace_of_isDigit (hc : isDigit c = true) : isSpace c = false := by
  simp only [isDigit, isSpace, Bool.and_eq_true, decide_eq_true_eq, UInt8.le_iff_toNat_le,
    Bool.or_eq_false_iff, Bool.and_eq_false_iff, decide_eq_false_iff_not,
    ← UInt8.toNat_inj] at *
  have h1 : (48 : UInt8).toNat = 48 := rfl
  have h4 : (13 : UInt8).toNat = 13 := rfl
  have h5 : (32 : UInt8).toNat = 32 := rfl
  omega

theorem ne_of_isDigit {d : UInt8} (hc : isDigit c = true) (hd : isDigit d = false) : c ≠ d := by
  rintro rfl
  simp [hc] at hd

/-- `strtol` on a string of digits, possibly after a minus sign, with other
text behind it. -/
theorem strtol_digits (neg : Bool) (hne : ds ≠ []) (hds : ∀ c ∈ ds, isDigit c = true)
    (hrest : ∀ c ∈ rest.head?, isDigit c = false) (hlt : digitsVal ds < 2 ^ 63) :
    strtol (if neg then 45 :: (ds ++ rest) else ds ++ rest) =
      (if neg then - (digitsVal ds : Int) else digitsVal ds, rest) := by
  have hstop : rest.takeWhile isDigit = [] ∧ rest.dropWhile isDigit = rest := by
    cases rest with
    | nil => exact ⟨rfl, rfl⟩
    | cons c rest => simp [hrest c rfl]
  have htake : (ds ++ rest).takeWhile isDigit = ds := by
    rw [takeWhile_append_of_pos hds, hstop.1, append_nil]
  have hdrop : (ds ++ rest).dropWhile isDigit = rest := by
    rw [dropWhile_append_of_pos hds, hstop.2]
  obtain ⟨c, cs, rfl⟩ := exists_cons_of_ne_nil hne
  have hc := hds c (by simp)
  cases neg with
  | true =>
    simp only [if_true, strtol, dropWhile_cons_of_neg (p := isSpace) (a := 45)
      (by decide), List.head?_cons, tail_cons, true_or, htake, hdrop, hne, if_false]
    congr 1
    omega
  | false =>
    have h1 : c ≠ 45 := ne_of_isDigit hc rfl
    have h2 : c ≠ 43 := ne_of_isDigit hc rfl
    rw [cons_append] at htake hdrop
    simp only [Bool.false_eq_true, if_false, strtol, cons_append,
      dropWhile_cons_of_neg (p := isSpace) (a := c) (by simp [not_isSpace_of_isDigit hc]),
      List.head?_cons, Option.some.injEq, h1, h2, or_self, htake, hdrop, hne]
    congr 1
    omega

/-- What `%d` prints, `strtol` reads back up to the text behind it. -/
theorem strtol_fmtInt_append {v : Int} (hlo : -(2 ^ 63) < v) (hhi : v < 2 ^ 63) {rest : Bytes}
    (hrest : ∀ c ∈ rest.head?, isDigit c = false) : strtol (fmtInt v ++ rest) = (v, rest) := by
  cases v with
  | ofNat n =>
    have := strtol_digits false (fmtNat_ne_nil n) (fun c => fmtNat_isDigit) hrest
      (by rw [digitsVal_fmtNat]; simp at hhi; omega)
    simpa [fmtInt, digitsVal_fmtNat] using this
  | negSucc n =>
    have := strtol_digits true (fmtNat_ne_nil (n + 1)) (fun c => fmtNat_isDigit) hrest
      (by rw [digitsVal_fmtNat]; simp at hlo; omega)
    simpa [fmtInt, digitsVal_fmtNat, Int.negSucc_eq] using this

variable {v : Int}

theorem strtol_fmtInt (hlo : -(2 ^ 63) < v) (hhi : v < 2 ^ 63) : strtol (fmtInt v) = (v, []) := by
  simpa using @strtol_fmtInt_append _ hlo hhi [] (by simp)

/-- The values of a 32-bit `int`. -/
def IsInt32 (v : Int) : Prop := -(2 ^ 31) ≤ v ∧ v < 2 ^ 31

instance (v : Int) : Decidable (IsInt32 v) := inferInstanceAs (Decidable (_ ∧ _))

theorem isInt32_toInt32 (v : Int) : IsInt32 (toInt32 v) := by
  unfold IsInt32 toInt32
  have h1 := Int.le_bmod (x := v) (m := 2 ^ 32) (by norm_num)
  have h2 := Int.bmod_lt (x := v) (m := 2 ^ 32) (by norm_num)
  omega

theorem toInt32_eq_self (hv : IsInt32 v) : toInt32 v = v := by
  unfold IsInt32 at hv
  exact Int.bmod_eq_of_le (by norm_num; omega) (by norm_num; omega)

theorem atoi_fmtInt (hv : IsInt32 v) : atoi (fmtInt v) = v := by
  have h := hv
  unfold IsInt32 at h
  rw [atoi, strtol_fmtInt (by omega) (by omega), toInt32_eq_self hv]

theorem length_fmtInt_le (hv : IsInt32 v) : (fmtInt v).length ≤ 11 := by
  unfold IsInt32 at hv
  cases v with
  | ofNat n =>
    have := length_fmtNat_le (n := n) (k := 10) (by norm_num) (by simp at hv; omega)
    simp only [fmtInt]
    omega
  | negSucc n =>
    have := length_fmtNat_le (n := n + 1) (k := 10) (by norm_num) (by simp at hv; omega)
    simp only [fmtInt, length_cons]
    omega

theorem mem_fmtInt (hc : c ∈ fmtInt v) : isDigit c = true ∨ c = 45 := by
  cases v with
  | ofNat n => exact .inl (fmtNat_isDigit hc)
  | negSucc n =>
    rcases mem_cons.mp hc with rfl | hc
    · exact .inr rfl
    · exact .inl (fmtNat_isDigit hc)

theorem notMem_fmtInt (hd : isDigit c = false) (hc : c ≠ 45) : c ∉ fmtInt v := by
  intro h
  rcases mem_fmtInt h with h | h
  · simp [hd] at h
  · exact hc h

theorem fmtInt_ne_nil (v : Int) : fmtInt v ≠ [] := by
  cases v with
  | ofNat n => exact fmtNat_ne_nil n
  | negSucc n => simp [fmtInt]

end Corestack.Lib
