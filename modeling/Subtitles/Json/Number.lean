/-
# Json.Number: numbers in JSON text

A number without fraction and exponent is an integer, as long as it fits 64 bits; any other is
a double. The double is not the nearest one: its digits are gathered in 64 bits, those that no
longer fit are dropped, and the result is multiplied or divided by a power of ten that is
rounded itself.
-/
import Subtitles.Binary64.Integer
import Subtitles.Decimal.Reading
import Subtitles.Json.Reader
namespace Subtitles.Json

set_option autoImplicit false

inductive Number
  | natural (n : Nat)
  /-- Minus a positive number. -/
  | minus (n : Nat)
  | double (x : Binary64)
  deriving DecidableEq, Repr

namespace Number

def maxSignificand : Nat := 0xffffffffffffffff

def maxPower : Int := 0x7fffffff

/-- Digits gathered as far as they fit, and how many were left over. -/
def gather (significand : Nat) (left : Nat) : List Nat → Nat × Nat
  | [] => (significand, left)
  | d :: ds =>
    if left = 0 ∧ 10 * significand + d ≤ maxSignificand then gather (10 * significand + d) 0 ds
    else gather significand (left + 1) ds

/-- Divide by so many powers of ten, at most 308 of them at a time. -/
def scaleDown (x : Binary64) (power : Nat) : Binary64 :=
  if power ≤ 308 then x / .ofNat (Nat.pow 10 power)
  else if x.magnitude = 0 then x
  else scaleDown (x / .ofNat (Nat.pow 10 308)) (power - 308)
termination_by power

/-- The double of a significand and a power of ten; there is none beyond the largest. -/
def ofParts (negative : Bool) (significand : Nat) (power : Int) : Except Defect Binary64 :=
  let x := Binary64.ofNat significand
  let sign (y : Binary64) : Binary64 := if negative then -y else y
  if power < 0 then .ok (sign (scaleDown x (-power).toNat))
  else if 308 < power then if significand = 0 then .ok (sign x) else .error .malformed
  else
    let y := x * .ofNat (Nat.pow 10 power.toNat)
    if y.isInfinite then .error .malformed else .ok (sign y)

def clampPower (p : Int) : Int := max (-maxPower - 1) (min maxPower p)

/-- A number from its exponent on, whose mark was taken. -/
def exponentFrom (negative : Bool) (significand : Nat) (power : Int) (cs : List Char) :
    Except Defect (Number × List Char) :=
  let (down, cs) := match cs with
    | '+' :: r => (false, r)
    | '-' :: r => (true, r)
    | r => (false, r)
  let digits := cs.takeWhile Reading.isDigit
  let rest := cs.dropWhile Reading.isDigit
  if digits = [] then .error (if rest = [] then .cutShort else .malformed)
  else
    let e : Int := Reading.natOf digits
    if maxPower < e then
      if significand ≠ 0 ∧ !down then .error .malformed
      else .ok (.double (.pack negative 0), rest)
    else
      (ofParts negative significand (clampPower (if down then power - e else power + e))).map
        fun x => (.double x, rest)

/-- A double from what follows its digits on. -/
def doubleFrom (negative : Bool) (significand : Nat) (power : Int) (cs : List Char) :
    Except Defect (Number × List Char) :=
  match cs with
  | 'e' :: r | 'E' :: r => exponentFrom negative significand power r
  | r => (ofParts negative significand power).map fun x => (.double x, r)

/-- A double from its fraction on, whose point was taken. Digits that no longer fit are dropped. -/
def fractionFrom (negative : Bool) (significand : Nat) (power : Int) (cs : List Char) :
    Except Defect (Number × List Char) :=
  let digits := cs.takeWhile Reading.isDigit
  let rest := cs.dropWhile Reading.isDigit
  if digits = [] then .error (if rest = [] then .cutShort else .malformed)
  else
    let (significand, left) := gather significand 0 (digits.map Reading.digitValue)
    doubleFrom negative significand (power - (digits.length - left : Nat)) rest

/-- A number whose integer digits were read. Digits left over multiply it by ten. -/
def afterDigits (negative : Bool) (significand left : Nat) (cs : List Char) :
    Except Defect (Number × List Char) :=
  match cs with
  | '.' :: r => fractionFrom negative significand left r
  | 'e' :: r | 'E' :: r => exponentFrom negative significand left r
  | r =>
    if left ≠ 0 then doubleFrom negative significand left r
    else if !negative then .ok (.natural significand, r)
    else if significand = 0 ∨ 0x8000000000000000 < significand then
      .ok (.double (-(Binary64.ofNat significand)), r)
    else .ok (.minus significand, r)

/-- A number behind its sign. Only a lone zero begins with a zero. -/
def unsignedFrom (negative : Bool) : List Char → Except Defect (Number × List Char)
  | [] => .error .cutShort
  | '0' :: cs =>
    if cs.head?.any Reading.isDigit then .error .malformed else afterDigits negative 0 0 cs
  | c :: cs =>
    if Reading.isDigit c then
      let digits := c :: cs.takeWhile Reading.isDigit
      let (significand, left) := gather 0 0 (digits.map Reading.digitValue)
      afterDigits negative significand left (cs.dropWhile Reading.isDigit)
    else .error .malformed

/-- A number that is passed over. Its size does not matter, and one that ends early is simply
not a number. -/
def skipUnsigned (cs : List Char) : Except Defect (List Char) :=
  let past (r : List Char) : Except Defect (List Char) :=
    if r.head?.any Reading.isDigit then .ok (r.dropWhile Reading.isDigit) else .error .malformed
  let exponent (r : List Char) : Except Defect (List Char) :=
    match r with
    | 'e' :: '+' :: r | 'E' :: '+' :: r | 'e' :: '-' :: r | 'E' :: '-' :: r => past r
    | 'e' :: r | 'E' :: r => past r
    | r => .ok r
  do
    let r ← match cs with
      | '0' :: r => if r.head?.any Reading.isDigit then .error .malformed else .ok r
      | r => past r
    match r with
    | '.' :: r => exponent (← past r)
    | r => exponent r

end Number
end Subtitles.Json
