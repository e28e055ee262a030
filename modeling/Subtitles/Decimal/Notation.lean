/-
How double precision numbers are written.

A notation says which numbers are written positionally and which with an exponent, with or
without a sign before it, and whether a whole number keeps a point. The library writes numbers in three places: JSON text,
the descriptions of frames and streams, and messages.
-/
import Subtitles.Decimal.Shortest
namespace Subtitles

set_option autoImplicit false

structure Notation where
  /-- The powers of ten of the first digit for which a number is written positionally. -/
  positional : Int → Bool
  /-- What follows a whole number written positionally. -/
  wholeMark : String
  /-- What stands before a power of ten that is not negative. -/
  powerSign : String
  tie : Tie
  /-- What stands for an infinity, negative or not. -/
  infinite : Bool → String
  nan : String

namespace Notation

def digitChar (d : Nat) : Char := Char.ofNat (48 + d)

def digitText (ds : List Nat) : String := String.ofList (ds.map digitChar)

/-- Digits with the point after the first `point` of them, filled up with zeros on both sides. -/
def placed (wholeMark : String) (ds : List Nat) (point : Int) : String :=
  if point ≤ 0 then "0." ++ digitText (List.replicate (-point).toNat 0 ++ ds)
  else if (ds.length : Int) ≤ point then
    digitText (ds ++ List.replicate (point.toNat - ds.length) 0) ++ wholeMark
  else digitText (ds.take point.toNat) ++ "." ++ digitText (ds.drop point.toNat)

/-- One digit before the point, the others after it, and the power of ten. -/
def scientific (powerSign : String) (ds : List Nat) (power : Int) : String :=
  let fraction := if 1 < ds.length then "." ++ digitText ds.tail else ""
  digitText (ds.take 1) ++ fraction ++ "e" ++ (if 0 ≤ power then powerSign else "") ++ toString power

def absolute (f : Notation) (x : Binary64) : String :=
  if x.magnitude = 0 then "0" ++ f.wholeMark
  else
    let d := x.shortest f.tie
    let ds := Decimal.digitsOf d.digits
    if f.positional d.leading then placed f.wholeMark ds (d.leading + 1)
    else scientific f.powerSign ds d.leading

def write (f : Notation) (x : Binary64) : String :=
  if x.isNaN then f.nan
  else if x.isInfinite then f.infinite x.negative
  else (if x.negative then "-" else "") ++ f.absolute x

def signedInfinity (negative : Bool) : String := if negative then "-inf" else "inf"

/-- JSON has no number for what is not finite. -/
def json : Notation :=
  ⟨fun p => decide (-5 ≤ p ∧ p ≤ 15), ".0", "+", .even, fun _ => "null", "null"⟩

def description : Notation :=
  ⟨fun p => decide (-4 ≤ p ∧ p ≤ 15), ".0", "", .up, signedInfinity, "NaN"⟩

/-- Messages write every number positionally and a whole one without a point. -/
def message : Notation := ⟨fun _ => true, "", "", .up, signedInfinity, "NaN"⟩

end Notation
end Subtitles
