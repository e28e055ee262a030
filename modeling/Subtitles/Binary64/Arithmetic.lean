/-
Rounding and the four operations on double precision numbers.

Each operation computes its exact result, a natural number times a power of two (a quotient
keeps one more bit that says whether anything was cut off), and rounds it once: to the
nearest number, a tie to the even significand. A magnitude at or beyond half a unit over
the largest finite one becomes infinity.
-/
import Subtitles.Binary64
namespace Subtitles

set_option autoImplicit false

namespace Binary64

/-- The integer nearest `n / 2 ^ k`, a tie going to the even one. -/
def shiftRounded (n k : Nat) : Nat :=
  let unit := Nat.pow 2 k
  let q := n / unit
  let r := n % unit
  if unit < 2 * r ∨ (unit = 2 * r ∧ q % 2 = 1) then q + 1 else q

/-- The magnitude nearest `n * 2 ^ e`. The significand lies over a unit of at least `2 ^ -1074`
and has at most 53 bits; a carry out of it moves the packed exponent up by itself. -/
def roundMagnitude (n : Nat) (e : Int) : Nat :=
  if n = 0 then 0
  else
    let unit := max (e + n.log2 - 52) (-1074)
    let q := if unit ≤ e then n * Nat.pow 2 (e - unit).toNat else shiftRounded n (unit - e).toNat
    min infinite ((unit + 1074).toNat * hiddenBit + q)

/-- The number nearest `± n * 2 ^ e`. -/
def round (negative : Bool) (n : Nat) (e : Int) : Binary64 := pack negative (roundMagnitude n e)

/-- The number nearest `± num / den`, for a positive `den`. The quotient is taken to at least
56 bits, below which a cut-off part only has to be told from none. -/
def ofRatio (negative : Bool) (num den : Nat) : Binary64 :=
  let shift := 56 + den.log2 - num.log2
  let n := num * Nat.pow 2 shift
  round negative (2 * (n / den) + if n % den = 0 then 0 else 1) (-(shift : Int) - 1)

def neg (x : Binary64) : Binary64 := pack (!x.negative) x.magnitude

/-- The signed significand in units of `2 ^ e`, for an `e` not above the exponent. -/
def signedIn (x : Binary64) (e : Int) : Int := x.signed * (Nat.pow 2 (x.exponent - e).toNat : Nat)

def add (x y : Binary64) : Binary64 :=
  if x.isNaN || y.isNaN then nan
  else if x.isInfinite then
    if y.isInfinite && x.negative != y.negative then nan else x
  else if y.isInfinite then y
  else
    let e := min x.exponent y.exponent
    let sum := x.signedIn e + y.signedIn e
    if sum = 0 then pack (x.negative && y.negative) 0
    else round (decide (sum < 0)) sum.natAbs e

def sub (x y : Binary64) : Binary64 := add x y.neg

def mul (x y : Binary64) : Binary64 :=
  let negative := x.negative != y.negative
  if x.isNaN || y.isNaN then nan
  else if x.isInfinite || y.isInfinite then
    if x.magnitude = 0 ∨ y.magnitude = 0 then nan else pack negative infinite
  else round negative (x.significand * y.significand) (x.exponent + y.exponent)

def div (x y : Binary64) : Binary64 :=
  let negative := x.negative != y.negative
  if x.isNaN || y.isNaN then nan
  else if x.isInfinite then
    if y.isInfinite then nan else pack negative infinite
  else if y.isInfinite then pack negative 0
  else if y.magnitude = 0 then
    if x.magnitude = 0 then nan else pack negative infinite
  else
    let n := x.significand * Nat.pow 2 110
    let quotient := 2 * (n / y.significand) + if n % y.significand = 0 then 0 else 1
    round negative quotient (x.exponent - y.exponent - 111)

instance : Neg Binary64 := ⟨neg⟩
instance : Add Binary64 := ⟨add⟩
instance : Sub Binary64 := ⟨sub⟩
instance : Mul Binary64 := ⟨mul⟩
instance : Div Binary64 := ⟨div⟩

/-- The larger of two numbers; what is no number gives way to what is one. -/
def maximum (x y : Binary64) : Binary64 :=
  if x.isNaN then y else if x < y then y else x

/-- The smaller of two numbers; what is no number gives way to what is one. -/
def minimum (x y : Binary64) : Binary64 :=
  if x.isNaN then y else if y < x then y else x

/-- The number itself, or zero where it is below zero or no number. -/
def atLeastZero (x : Binary64) : Binary64 := x.maximum zero

end Binary64
end Subtitles
