import Corestack.Lib.Text

/-!
# Memory of a fixed size

A C struct that is copied as a whole, byte by byte, is the bytes it takes in
memory; its 32-bit fields are read and written there, least significant
byte first.
-/

namespace Corestack.Lib

open List

/-! ## Numbers as bytes -/

/-- The number that bytes stand for, least significant first. -/
def ofLe : Bytes → Nat
  | [] => 0
  | b :: bs => b.toNat + 256 * ofLe bs

/-- The last `w` bytes of a number, least significant first. -/
def toLe : Nat → Nat → Bytes
  | 0, _ => []
  | w + 1, n => UInt8.ofNat (n % 256) :: toLe w (n / 256)

theorem length_toLe (w n : Nat) : (toLe w n).length = w := by
  induction w generalizing n with
  | zero => rfl
  | succ w ih => rw [toLe, length_cons, ih]

theorem ofLe_toLe (w n : Nat) : ofLe (toLe w n) = n % 256 ^ w := by
  induction w generalizing n with
  | zero => rw [toLe, ofLe, pow_zero, Nat.mod_one]
  | succ w ih =>
    have hbyte : (UInt8.ofNat (n % 256)).toNat = n % 256 := by
      rw [UInt8.toNat_ofNat']
      omega
    rw [toLe, ofLe, ih, hbyte, pow_succ, Nat.mul_comm (256 ^ w) 256, Nat.mod_mul]

/-- An `int` in memory. -/
def intBytes (v : Int) : Bytes := toLe 4 (v % 2 ^ 32).toNat

theorem toInt32_ofLe_intBytes (v : Int) : toInt32 (ofLe (intBytes v)) = toInt32 v := by
  have hnonneg : 0 ≤ v % 2 ^ 32 := Int.emod_nonneg v (by norm_num)
  have hlt : v % 2 ^ 32 < 2 ^ 32 := Int.emod_lt_of_pos v (by norm_num)
  have hword : ((v % 2 ^ 32).toNat % 256 ^ 4 : Nat) = (v % 2 ^ 32).toNat :=
    Nat.mod_eq_of_lt (by norm_num at *; omega)
  rw [intBytes, ofLe_toLe, hword, Int.toNat_of_nonneg hnonneg]
  exact Int.emod_bmod v (2 ^ 32)

/-! ## Images -/

/-- The memory of a struct of `n` bytes. -/
structure Image (n : Nat) where
  bytes : Bytes
  size : bytes.length = n
deriving DecidableEq

namespace Image

variable {n : Nat}

/-- Bytes that are exactly the struct. -/
def ofBytes (n : Nat) (b : Bytes) : Option (Image n) :=
  if h : b.length = n then some ⟨b, h⟩ else none

/-- A struct that was cleared and then filled from its start. -/
def filled (n : Nat) (b : Bytes) : Image n :=
  ⟨(b ++ List.replicate n 0).take n, by simp⟩

def int (img : Image n) (off : Nat) : Int := toInt32 (ofLe ((img.bytes.drop off).take 4))

def bool (img : Image n) (off : Nat) : Bool := img.bytes[off]?.getD 0 ≠ 0

/-- Assignment to an `int` field. -/
def setInt (img : Image n) (off : Nat) (v : Int) (h : off + 4 ≤ n) : Image n where
  bytes := img.bytes.take off ++ intBytes v ++ img.bytes.drop (off + 4)
  size := by
    have hsize := img.size
    have hint : (intBytes v).length = 4 := length_toLe 4 _
    simp only [length_append, length_take, length_drop, hint]
    omega

theorem int_setInt (img : Image n) {off : Nat} (v : Int) (h : off + 4 ≤ n) :
    (img.setInt off v h).int off = toInt32 v := by
  have hsize := img.size
  have htake : (img.bytes.take off).length = off := by
    rw [length_take]
    omega
  have hint : (intBytes v).length = 4 := length_toLe 4 _
  have hfield : (img.setInt off v h).bytes.drop off = intBytes v ++ img.bytes.drop (off + 4) := by
    show (img.bytes.take off ++ intBytes v ++ img.bytes.drop (off + 4)).drop off = _
    rw [append_assoc, drop_append_of_le_length (Nat.le_of_eq htake.symm),
      drop_eq_nil_of_le (Nat.le_of_eq htake), nil_append]
  rw [int, hfield, take_append_of_le_length (Nat.le_of_eq hint.symm),
    take_of_length_le (Nat.le_of_eq hint), toInt32_ofLe_intBytes]

end Image

end Corestack.Lib
