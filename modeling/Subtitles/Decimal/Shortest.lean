/-
The shortest decimal that reads back as a given double precision number.

All reals strictly between the two midpoints to the neighbours round to a number, and the
midpoints themselves do when its significand is even. `shortest` looks for a decimal in this
interval on ever finer grids, at most 17 digits; on the first grid with a hit it takes the
nearer of the number's two neighbours there. All comparisons are of natural numbers.
-/
import Subtitles.Binary64
namespace Subtitles

set_option autoImplicit false

/-- The decimal `digits * 10 ^ exponent`. -/
structure Decimal where
  digits : Nat
  exponent : Int
  deriving DecidableEq, Repr

/-- Where a number goes that lies exactly between two shortest decimals. -/
inductive Tie
  | even
  | up
  deriving DecidableEq, Repr

namespace Decimal

/-- The decimal digits of a natural number, the first one first; none for zero. -/
def digitsOf (n : Nat) : List Nat :=
  if n = 0 then [] else digitsOf (n / 10) ++ [n % 10]

/-- The same decimal with the zeros at its end moved into the exponent. -/
def trimmed (d : Decimal) : Decimal :=
  if d.digits ≠ 0 ∧ d.digits % 10 = 0 then trimmed ⟨d.digits / 10, d.exponent + 1⟩ else d
termination_by d.digits
decreasing_by exact Nat.div_lt_self (by omega) (by decide)

/-- The power of ten of the first digit. -/
def leading (d : Decimal) : Int := d.exponent + (digitsOf d.digits).length - 1

end Decimal

/-- A positive real with the interval around it of what rounds to it, as numerators over one
denominator. -/
structure RoundingInterval where
  low : Nat
  value : Nat
  high : Nat
  denominator : Nat
  closed : Bool

namespace RoundingInterval

/-- The interval of a number that is neither zero nor infinite. Below a power of two the
neighbour is only half as far. -/
def of (x : Binary64) : RoundingInterval :=
  let m := x.significand
  let below := if m = Binary64.hiddenBit ∧ 2 * Binary64.hiddenBit ≤ x.magnitude then 1 else 2
  let up := (x.exponent - 2).toNat
  ⟨(4 * m - below) <<< up, (4 * m) <<< up, (4 * m + 2) <<< up, 1 <<< (2 - x.exponent).toNat, m % 2 == 0⟩

/-- The same real in units of `10 ^ k`. -/
def inUnits (r : RoundingInterval) (k : Int) : RoundingInterval :=
  let up := Nat.pow 10 (-k).toNat
  ⟨r.low * up, r.value * up, r.high * up, r.denominator * Nat.pow 10 k.toNat, r.closed⟩

def holds (r : RoundingInterval) (n : Nat) : Bool :=
  let at_ := n * r.denominator
  if r.closed then decide (r.low ≤ at_ ∧ at_ ≤ r.high) else decide (r.low < at_ ∧ at_ < r.high)

/-- The integer of the interval nearest to its value, if an integer next to the value is in it. -/
def integer? (r : RoundingInterval) (tie : Tie) : Option Nat :=
  let below := r.value / r.denominator
  let twice := 2 * (r.value % r.denominator)
  let upward := decide (r.denominator < twice) ||
    (decide (r.denominator = twice) && (tie == .up || below % 2 == 1))
  match r.holds below, r.holds (below + 1) with
  | true, true => some (if upward then below + 1 else below)
  | true, false => some below
  | false, true => some (below + 1)
  | false, false => none

/-- The power of ten of the value's first digit. The binary logarithm times 78913 / 262144 is
at most one too small. -/
def leading (r : RoundingInterval) : Int :=
  let estimate := ((r.value.log2 : Int) - r.denominator.log2 - 1) * 78913 / 262144
  let reached (p : Int) : Bool :=
    decide (r.denominator * Nat.pow 10 p.toNat ≤ r.value * Nat.pow 10 (-p).toNat)
  if reached (estimate + 2) then estimate + 2
  else if reached (estimate + 1) then estimate + 1
  else estimate

/-- The first decimal in the interval on the grids from `10 ^ k` downward. -/
def search (r : RoundingInterval) (tie : Tie) (k : Int) : Nat → Option Decimal
  | 0 => none
  | grids + 1 =>
    match (r.inUnits k).integer? tie with
    | some n => some (Decimal.trimmed ⟨n, k⟩)
    | none => r.search tie (k - 1) grids

end RoundingInterval

/-- The shortest decimal that reads back as the absolute value of a finite number, and of
those the nearest. -/
def Binary64.shortest (x : Binary64) (tie : Tie) : Decimal :=
  if x.magnitude = 0 then ⟨0, 0⟩
  else
    let r := RoundingInterval.of x
    (r.search tie r.leading 17).getD ⟨0, 0⟩

end Subtitles
