import Mathlib.Data.List.Lex

/-!
# Values and their comparison (`IntField`, `StringField`, `Predicate`)

Java strings are sequences of 16-bit units, and `compareTo` subtracts the
first two that differ. The operators of a where clause, given a meaning of
their own, are what `compare` computes from that.
-/

namespace Corestack.Simpledb

/-! ## Java strings -/

abbrev JString := List UInt16

def jstr (s : String) : JString := s.toList.map fun c => c.toNat.toUInt16

def compareTo : JString → JString → Int
  | [], b => -(b.length : Int)
  | a, [] => a.length
  | x :: a, y :: b => if x = y then compareTo a b else (x.toNat : Int) - y.toNat

theorem compareTo_eq_zero (a b : JString) : compareTo a b = 0 ↔ a = b := by
  induction a generalizing b with
  | nil => cases b with
    | nil => simp [compareTo]
    | cons y b =>
      simp only [compareTo, List.length_cons, reduceCtorEq, iff_false]
      omega
  | cons x a ih => cases b with
    | nil =>
      simp only [compareTo, List.length_cons, reduceCtorEq, iff_false]
      omega
    | cons y b =>
      by_cases hxy : x = y
      · simp only [compareTo, hxy, if_true, ih, List.cons.injEq, true_and]
      · have hne : x.toNat ≠ y.toNat := fun h => hxy (UInt16.toNat_inj.mp h)
        simp only [compareTo, hxy, if_false, List.cons.injEq, false_and, iff_false]
        omega

theorem compareTo_neg (a b : JString) : compareTo a b < 0 ↔ a < b := by
  induction a generalizing b with
  | nil => cases b with
    | nil => simp [compareTo]
    | cons y b =>
      simp only [compareTo, List.length_cons, List.nil_lt_cons, iff_true]
      omega
  | cons x a ih => cases b with
    | nil =>
      simp only [compareTo, List.length_cons, List.not_lt_nil, iff_false]
      omega
    | cons y b =>
      by_cases hxy : x = y
      · simp only [compareTo, hxy, if_true, ih, List.cons_lt_cons_iff, UInt16.lt_irrefl, true_and,
          false_or]
      · simp only [compareTo, hxy, if_false, List.cons_lt_cons_iff, false_and, or_false,
          UInt16.lt_iff_toNat_lt]
        omega

theorem compareTo_comm (a b : JString) : compareTo b a = -compareTo a b := by
  induction a generalizing b with
  | nil => cases b <;> simp [compareTo]
  | cons x a ih => cases b with
    | nil => simp [compareTo]
    | cons y b =>
      by_cases hxy : x = y
      · simp only [compareTo, hxy, if_true, ih]
      · simp only [compareTo, hxy, Ne.symm hxy, if_false]
        omega

theorem compareTo_pos (a b : JString) : 0 < compareTo a b ↔ b < a := by
  have hcomm := compareTo_comm a b
  rw [← compareTo_neg]
  omega

/-! ## Fields -/

inductive FieldType where
  | int
  | string
deriving DecidableEq, Repr

abbrev stringLen : Nat := 128

inductive Field where
  | int (v : Int)
  | string (s : JString)
deriving DecidableEq, Repr

def Field.type : Field → FieldType
  | .int _ => .int
  | .string _ => .string

/-- `Predicate.Op`. -/
inductive PredOp where
  | equals
  | greaterThan
  | lessThan
  | lessThanOrEq
  | greaterThanOrEq
  | like
  | notEquals
deriving DecidableEq, Repr

def contains (s t : JString) : Bool := s.tails.any fun r => t.isPrefixOf r

def intCompare (op : PredOp) (a b : Int) : Bool :=
  match op with
  | .equals | .like => a = b
  | .notEquals => a ≠ b
  | .greaterThan => a > b
  | .greaterThanOrEq => a ≥ b
  | .lessThan => a < b
  | .lessThanOrEq => a ≤ b

def stringCompare (op : PredOp) (a b : JString) : Bool :=
  let cmpVal := compareTo a b
  match op with
  | .equals => cmpVal = 0
  | .notEquals => cmpVal ≠ 0
  | .greaterThan => cmpVal > 0
  | .greaterThanOrEq => cmpVal ≥ 0
  | .lessThan => cmpVal < 0
  | .lessThanOrEq => cmpVal ≤ 0
  | .like => contains a b

/-- `Field.compare`. A field is never compared with one of another type:
`physicalPlan` makes the constant of the type of its column. -/
def Field.compare (op : PredOp) : Field → Field → Bool
  | .int a, .int b => intCompare op a b
  | .string a, .string b => stringCompare op a b
  | _, _ => false

/-! ## The operators of a where clause -/

/-- The comparisons, each under every spelling it has. -/
inductive CompOp where
  | eq
  | bangEq
  | angles
  | lt
  | le
  | gt
  | ge
deriving DecidableEq, Repr

/-- What a comparison of two values of an order means. -/
def CompOp.means {α : Type} [LT α] [DecidableLT α] [DecidableEq α] (op : CompOp) (a b : α) : Bool :=
  match op with
  | .eq => a = b
  | .bangEq | .angles => a ≠ b
  | .lt => a < b
  | .le => ¬ b < a
  | .gt => b < a
  | .ge => ¬ a < b

/-- Integers in their order, strings in the order of a dictionary. -/
def CompOp.holds (op : CompOp) : Field → Field → Bool
  | .int a, .int b => op.means a b
  | .string a, .string b => op.means a b
  | _, _ => false

def CompOp.pred : CompOp → PredOp
  | .eq => .equals
  | .bangEq | .angles => .notEquals
  | .lt => .lessThan
  | .le => .lessThanOrEq
  | .gt => .greaterThan
  | .ge => .greaterThanOrEq

theorem intCompare_pred (op : CompOp) (a b : Int) : intCompare op.pred a b = op.means a b := by
  cases op <;> simp [intCompare, CompOp.pred, CompOp.means]

theorem stringCompare_pred (op : CompOp) (a b : JString) :
    stringCompare op.pred a b = op.means a b := by
  have hzero := compareTo_eq_zero a b
  have hneg := compareTo_neg a b
  have hpos := compareTo_pos a b
  cases op with
  | eq => simp only [stringCompare, CompOp.pred, CompOp.means, hzero]
  | bangEq | angles => simp only [stringCompare, CompOp.pred, CompOp.means, ne_eq, hzero]
  | lt => simp only [stringCompare, CompOp.pred, CompOp.means, hneg]
  | le => simp only [stringCompare, CompOp.pred, CompOp.means, ← hpos, Int.not_lt]
  | gt => simp only [stringCompare, CompOp.pred, CompOp.means, gt_iff_lt, hpos]
  | ge => simp only [stringCompare, CompOp.pred, CompOp.means, ge_iff_le, ← hneg, Int.not_lt]

/-- The code's comparison computes what the operator means, for fields of any
types: no comparison of fields of different types holds. -/
theorem compare_pred (op : CompOp) (a b : Field) : a.compare op.pred b = op.holds a b := by
  cases a <;> cases b
  · exact intCompare_pred op _ _
  · rfl
  · rfl
  · exact stringCompare_pred op _ _

end Corestack.Simpledb
