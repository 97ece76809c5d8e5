import Mathlib.Algebra.Order.Ring.Nat
import Mathlib.Tactic.Common

/-!
# IEEE 754 binary64 values and their comparisons

A value is its bit pattern. Comparison reads the pattern as a signed magnitude,
which orders finite values and infinities as numbers do and identifies the two
zeros; a pattern whose exponent is all ones and whose fraction is not zero is
not a number and compares with nothing, itself included.
-/

/-- A double-precision floating-point value, by its bits. -/
structure Binary64 where
  bits : BitVec 64
  deriving DecidableEq, Repr

namespace Binary64

/-- The eleven exponent bits. -/
def exponent (x : Binary64) : Nat := x.bits.toNat / 2 ^ 52 % 2 ^ 11

/-- The fifty-two fraction bits. -/
def fraction (x : Binary64) : Nat := x.bits.toNat % 2 ^ 52

/-- The sixty-three bits below the sign. -/
def magnitude (x : Binary64) : Nat := x.bits.toNat % 2 ^ 63

def isFinite (x : Binary64) : Bool := x.exponent != 2047

def isNaN (x : Binary64) : Bool := x.exponent == 2047 && x.fraction != 0

/-- Position on the number line; the two zeros share a position. -/
def position (x : Binary64) : Int :=
  if x.bits.msb then -(x.magnitude : Int) else x.magnitude

/-- The comparison `≤` of the format. -/
def le (x y : Binary64) : Bool :=
  !x.isNaN && !y.isNaN && decide (x.position ≤ y.position)

/-- The comparison `=` of the format, which is not equality of bits. -/
instance : BEq Binary64 where
  beq x y := !x.isNaN && !y.isNaN && decide (x.position = y.position)

/-- A finite value equals itself. -/
theorem beq_self {x : Binary64} (finite : x.isFinite = true) : (x == x) = true := by
  have number : x.isNaN = false := by
    simp only [isFinite, bne_iff_ne] at finite
    simp [isNaN, finite]
  change (!x.isNaN && !x.isNaN && decide (x.position = x.position)) = true
  simp [number]

/-- What some value equals is a number, so it equals itself. -/
theorem right_beq_self {x y : Binary64} (equal : (x == y) = true) : (y == y) = true := by
  change (!x.isNaN && !y.isNaN && decide (x.position = y.position)) = true at equal
  change (!y.isNaN && !y.isNaN && decide (y.position = y.position)) = true
  simp only [Bool.and_eq_true] at equal
  simp [equal.1.2]

instance : Inhabited Binary64 := ⟨⟨0⟩⟩

end Binary64
