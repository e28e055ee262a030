/-
# Json.Value: readers of single values

Each reader looks at the first character of what comes. A value of another kind is read far
enough to know that it is one, so that a defect inside it comes first.
-/
import Subtitles.Json.Number
namespace Subtitles.Json

set_option autoImplicit false

namespace Reader

variable {α : Type}

/-- Read a number from its first character on, given that character. -/
def numberAt (c : Char) : Reader Number := do
  if c = '-' then skip
  match Number.unsignedFrom (decide (c = '-')) (← get) with
  | .ok (n, rest) => do set rest; return n
  | .error d => fail d

/-- Refuse a value of a kind that is not wanted, given its first character. -/
def refuse (c : Char) : Reader α := do
  if c = 'n' then do skip; word ['u', 'l', 'l']; fail .unsuited
  else if c = 't' then do skip; word ['r', 'u', 'e']; fail .unsuited
  else if c = 'f' then do skip; word ['a', 'l', 's', 'e']; fail .unsuited
  else if c = '-' ∨ Reading.isDigit c then do let _ ← numberAt c; fail .unsuited
  else if c = '"' then do skip; let _ ← stringBody true; fail .unsuited
  else if c = '[' ∨ c = '{' then fail .unsuited
  else fail .malformed

/-- The first character of a value; the text may not end before it. -/
def first : Reader Char := do
  match ← peek with
  | some c => return c
  | none => fail .cutShort

def number : Reader Number := do
  let c ← first
  if c = '-' ∨ Reading.isDigit c then numberAt c else refuse c

/-- An integer of so many bits without a sign. -/
def natural (bits : Nat) : Reader Nat := do
  match ← number with
  | .natural n => if n < Nat.pow 2 bits then return n else fail .unsuited
  | _ => fail .unsuited

def byte : Reader UInt8 := UInt8.ofNat <$> natural 8

def word16 : Reader UInt16 := UInt16.ofNat <$> natural 16

def word32 : Reader UInt32 := UInt32.ofNat <$> natural 32

def word64 : Reader UInt64 := UInt64.ofNat <$> natural 64

def double : Reader Binary64 := do
  match ← number with
  | .natural n => return .ofNat n
  | .minus n => return -(.ofNat n)
  | .double x => return x

def bool : Reader Bool := do
  let c ← first
  if c = 't' then do skip; word ['r', 'u', 'e']; return true
  else if c = 'f' then do skip; word ['a', 'l', 's', 'e']; return false
  else refuse c

def string : Reader String := do
  let c ← first
  if c = '"' then do skip; stringBody true else refuse c

def null : Reader Unit := do
  let c ← first
  if c = 'n' then do skip; word ['u', 'l', 'l'] else refuse c

def colon : Reader Unit := do
  if (← first) = ':' then skip else fail .malformed

def optional (r : Reader α) : Reader (Option α) := do
  if (← peek) = some 'n' then do skip; word ['u', 'l', 'l']; return none
  else return some (← r)

/-! ## Arrays -/

/-- Whether another item comes in an array; the comma before it is taken. -/
def hasItem (isFirst : Bool) : Reader Bool := do
  let c ← first
  if c = ']' then return false
  else if isFirst then return true
  else if c = ',' then do
    skip
    if (← first) = ']' then fail .malformed else return true
  else fail .malformed

def endArray : Reader Unit := do
  if (← first) = ']' then skip else fail .malformed

/-- Items up to the end of an array, at most so many. -/
def itemsWithin (item : Reader α) (isFirst : Bool) : Nat → Reader (List α)
  | 0 => return []
  | bound + 1 => do
    if ← hasItem isFirst then
      let a ← item
      let rest ← itemsWithin item false bound
      return a :: rest
    else return []

/-- An array of any length. No array has more items than the text has characters. -/
def array (item : Reader α) : Reader (List α) := do
  let c ← first
  if c = '[' then do
    skip
    let items ← itemsWithin item true ((← get).length + 1)
    endArray
    return items
  else refuse c

/-- An array of exactly so many items. -/
def tuple (item : Reader α) (length : Nat) : Reader (List α) := do
  let c ← first
  if c = '[' then do
    skip
    let items ← itemsWithin item true length
    if items.length < length then fail .unsuited
    endArray
    return items
  else refuse c

/-! ## Values passed over -/

/-- Where the text goes on after a value that was passed over within these open brackets, the
innermost first: to another value, or out of the last of them. -/
def close (isEmpty : Bool) : List Char → List Char → Except Defect (Option (List Char) × List Char)
  | [], cs => .ok (none, cs)
  | bracket :: outer, cs =>
    match cs.dropWhile isBlank with
    | [] => .error .cutShort
    | c :: rest =>
      if c = ',' ∧ !isEmpty then .ok (some (bracket :: outer), rest)
      else if (c = ']' ∧ bracket = '[') ∨ (c = '}' ∧ bracket = '{') then close false outer rest
      else if isEmpty then .ok (some (bracket :: outer), c :: rest)
      else .error .malformed

/-- Pass over a key and its colon. -/
def skipKey : Reader Unit := do
  if (← first) ≠ '"' then fail .malformed
  skip
  let _ ← stringBody false
  colon

/-- Pass over values until the brackets open are closed, at most so many values. -/
def skipWithin (brackets : List Char) : Nat → Reader Unit
  | 0 => return ()
  | bound + 1 => do
    let c ← first
    let opened ←
      if c = 'n' then do skip; word ['u', 'l', 'l']; pure none
      else if c = 't' then do skip; word ['r', 'u', 'e']; pure none
      else if c = 'f' then do skip; word ['a', 'l', 's', 'e']; pure none
      else if c = '-' ∨ Reading.isDigit c then do
        if c = '-' then skip
        match Number.skipUnsigned (← get) with
        | .ok rest => do set rest; pure none
        | .error d => fail d
      else if c = '"' then do skip; let _ ← stringBody false; pure none
      else if c = '[' ∨ c = '{' then do skip; pure (some c)
      else fail .malformed
    match close opened.isSome (opened.toList ++ brackets) (← get) with
    | .error d => fail d
    | .ok (none, rest) => set rest
    | .ok (some brackets, rest) => do
      set rest
      if brackets.head? = some '{' then skipKey
      skipWithin brackets bound

/-- Pass over one value of any kind. -/
def skipValue : Reader Unit := do skipWithin [] ((← get).length + 1)

end Reader
end Subtitles.Json
