/-
Numbers read from plain text, such as an argument of a command.

A decimal is digits with at most one point among or around them, at least one digit in all,
and perhaps a signed power of ten. It is read as the nearest number: the exact ratio of two
natural numbers, rounded once. Integers are digits with an optional sign.
-/
import Subtitles.Binary64.Integer
import Subtitles.Decimal.Shortest
namespace Subtitles

set_option autoImplicit false

/-- The number nearest a decimal. Powers of ten far outside the range decide by themselves. -/
def Binary64.ofDecimal (negative : Bool) (d : Decimal) : Binary64 :=
  if d.digits = 0 then pack negative 0
  else if 400 < d.exponent then pack negative infinite
  else if d.exponent + (d.digits.log2 : Int) < -400 then pack negative 0
  else ofRatio negative (d.digits * Nat.pow 10 d.exponent.toNat) (Nat.pow 10 (-d.exponent).toNat)

namespace Reading

def isDigit (c : Char) : Bool := decide ('0' ≤ c ∧ c ≤ '9')

def digitValue (c : Char) : Nat := c.toNat - 48

def natOf (cs : List Char) : Nat := cs.foldl (fun n c => 10 * n + digitValue c) 0

/-- A nonempty run of digits. -/
def digits? (cs : List Char) : Option Nat :=
  if cs ≠ [] ∧ cs.all isDigit then some (natOf cs) else none

/-- A natural number, an optional plus sign before it. -/
def natural? : List Char → Option Nat
  | '+' :: cs => digits? cs
  | cs => digits? cs

/-- An integer with an optional sign. -/
def integer? : List Char → Option Int
  | '-' :: cs => (digits? cs).map fun n => -(n : Int)
  | cs => (natural? cs).map fun n => (n : Int)

/-- The power of ten after the digits, 0 where nothing follows. -/
def power? : List Char → Option Int
  | [] => some 0
  | c :: cs => if c = 'e' ∨ c = 'E' then integer? cs else none

def decimal? (cs : List Char) : Option Decimal :=
  let whole := cs.takeWhile isDigit
  let rest := cs.dropWhile isDigit
  let (fraction, rest) := match rest with
    | '.' :: r => (r.takeWhile isDigit, r.dropWhile isDigit)
    | r => ([], r)
  if whole = [] ∧ fraction = [] then none
  else (power? rest).map fun p => ⟨natOf (whole ++ fraction), p - fraction.length⟩

/-- A number without its sign; the names of infinity and of no number in any case of letters. -/
def unsigned? (negative : Bool) (cs : List Char) : Option Binary64 :=
  let name := cs.map Char.toLower
  if name = "inf".toList ∨ name = "infinity".toList then some (.pack negative Binary64.infinite)
  else if name = "nan".toList then some .nan
  else (decimal? cs).map (.ofDecimal negative)

def number? : List Char → Option Binary64
  | '-' :: cs => unsigned? true cs
  | '+' :: cs => unsigned? false cs
  | cs => unsigned? false cs

end Reading
end Subtitles
