/-
Double precision numbers and integers: exact conversion up to 53 bits, rounding to an
integer, and conversions to fixed-width integers that clamp to their range.
-/
import Subtitles.Binary64.Arithmetic
namespace Subtitles

set_option autoImplicit false

namespace Binary64

/-- The number nearest an integer; exact below `2 ^ 53`. -/
def ofInt (i : Int) : Binary64 := round (decide (i < 0)) i.natAbs 0

def ofNat (n : Nat) : Binary64 := round false n 0

/-- The absolute value of a finite number without its fraction. -/
def wholePart (x : Binary64) : Nat :=
  if 0 ≤ x.exponent then x.significand * Nat.pow 2 x.exponent.toNat
  else x.significand / Nat.pow 2 (-x.exponent).toNat

def hasFraction (x : Binary64) : Bool :=
  decide (x.exponent < 0 ∧ x.significand % Nat.pow 2 (-x.exponent).toNat ≠ 0)

/-- The integer nearest in absolute value, a half going away from zero. -/
def rounded (x : Binary64) : Binary64 :=
  if x.isFinite && decide (x.exponent < 0) then
    let unit := Nat.pow 2 (-x.exponent).toNat
    round x.negative ((2 * x.significand + unit) / (2 * unit)) 0
  else x

/-- The least integer not below the number. -/
def ceiling (x : Binary64) : Binary64 :=
  if x.isFinite && x.hasFraction then
    round x.negative (if x.negative then x.wholePart else x.wholePart + 1) 0
  else x

/-- The integer toward zero, clamped to a range; 0 for what is no number. -/
def clampTo (low high : Int) (x : Binary64) : Int :=
  if x.isNaN then 0
  else if x.isInfinite then if x.negative then low else high
  else
    let i : Int := if x.negative then -(x.wholePart : Int) else x.wholePart
    max low (min high i)

def toUInt32 (x : Binary64) : UInt32 := UInt32.ofNat (x.clampTo 0 0xffffffff).toNat

def toUInt64 (x : Binary64) : UInt64 := UInt64.ofNat (x.clampTo 0 0xffffffffffffffff).toNat

def toInt32 (x : Binary64) : Int32 := Int32.ofInt (x.clampTo (-0x80000000) 0x7fffffff)

/-- The integer toward zero within 64 signed bits. -/
def toInt64Value (x : Binary64) : Int := x.clampTo (-0x8000000000000000) 0x7fffffffffffffff

end Binary64
end Subtitles
