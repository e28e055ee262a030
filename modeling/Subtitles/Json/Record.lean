/-
# Json.Record: objects with known fields, and words for choices

A record is read from an object, whose members come in any order, or from an array that gives
the fields in theirs. The fields read so far are gathered in a draft, and at the end `finish`
makes the record of the draft or finds that something is missing.
-/
import Subtitles.Json.Value
namespace Subtitles.Json

set_option autoImplicit false

/-- A field of a record with its reader, which enters the value into the draft. -/
structure Field (δ : Type) where
  name : String
  read : Reader (δ → δ)

namespace Reader

variable {α δ : Type}

/-- Whether another member comes in an object; the comma before it is taken. -/
def hasMember (isFirst : Bool) : Reader Bool := do
  let c ← first
  if c = '}' then return false
  else if isFirst then if c = '"' then return true else fail .malformed
  else if c = ',' then do
    skip
    if (← first) = '"' then return true else fail .malformed
  else fail .malformed

/-- The members up to the end of an object, at most so many. A known field may come once.
Unknown ones are passed over, or refused where the record is `closed`. -/
def membersWithin (fields : List (Field δ)) (closed isFirst : Bool) (seen : List String)
    (draft : δ) : Nat → Reader δ
  | 0 => return draft
  | bound + 1 => do
    if ← hasMember isFirst then
      skip
      let key ← stringBody true
      match fields.find? (·.name = key) with
      | some field =>
        if seen.contains key then fail .unsuited
        colon
        let enter ← field.read
        membersWithin fields closed false (key :: seen) (enter draft) bound
      | none =>
        if closed then fail .unsuited
        colon
        skipValue
        membersWithin fields closed false seen draft bound
    else return draft

/-- The fields in their order, as many as the array has. -/
def positional (isFirst : Bool) (draft : δ) : List (Field δ) → Reader δ
  | [] => return draft
  | field :: rest => do
    if ← hasItem isFirst then
      let enter ← field.read
      positional false (enter draft) rest
    else return draft

/-- A record. `finish` is told whether the fields came by position. -/
def record (fields : List (Field δ)) (closed : Bool) (draft : δ) (finish : Bool → δ → Option α) :
    Reader α := do
  let made (byPosition : Bool) (draft : δ) : Reader α :=
    match finish byPosition draft with
    | some a => return a
    | none => fail .unsuited
  let c ← first
  if c = '[' then do
    skip
    let a ← made true (← positional true draft fields)
    endArray
    return a
  else if c = '{' then do
    skip
    let a ← made false (← membersWithin fields closed true [] draft ((← get).length + 1))
    skip
    return a
  else refuse c

/-- One of several words, as a string or as the only member of an object, with `null`. -/
def choice (words : List (String × α)) : Reader α := do
  let chosen (word : String) : Reader α :=
    match words.find? (·.1 = word) with
    | some w => return w.2
    | none => fail .unsuited
  let c ← first
  if c = '"' then do chosen (← string)
  else if c = '{' then do
    skip
    if (← first) ≠ '"' then fail .malformed
    let a ← chosen (← string)
    colon
    null
    if (← first) = '}' then skip else fail .malformed
    return a
  else fail .malformed

end Reader
end Subtitles.Json
