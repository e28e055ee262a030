/-
# Json.Reader: reading JSON text for a known shape

A reader knows what it wants and takes it off the front of the text, so the first defect in
the order of the text is the one reported. A defect is a text that ends early, a text that is
not JSON, or JSON that does not suit: a value of another kind or range, a field that is
missing, unknown or there twice.
-/
namespace Subtitles.Json

set_option autoImplicit false

inductive Defect
  | unsuited
  | malformed
  | cutShort
  deriving DecidableEq, Repr

abbrev Reader (α : Type) : Type := StateT (List Char) (Except Defect) α

def isBlank (c : Char) : Bool := c == ' ' || c == '\n' || c == '\t' || c == '\r'

namespace Reader

def fail {α : Type} (d : Defect) : Reader α := throw d

/-- The next character that is not blank, which stays in the text. -/
def peek : Reader (Option Char) := do
  modify (·.dropWhile isBlank)
  return (← get).head?

/-- Drop the character at the front. -/
def skip : Reader Unit := modify List.tail

/-- The rest of a word whose first letter was seen. -/
def word : List Char → Reader Unit
  | [] => pure ()
  | c :: w => do
    match ← get with
    | [] => fail .cutShort
    | d :: rest =>
      set rest
      if d = c then word w else fail .malformed

/-- Run a reader over a whole text. Only blanks may follow what it takes. -/
def all {α : Type} (r : Reader α) (text : String) : Except Defect α :=
  match (do let a ← r; return (a, ← peek)).run text.toList with
  | .ok ((a, none), _) => .ok a
  | .ok ((_, some _), _) => .error .malformed
  | .error d => .error d

end Reader

/-! ## Strings -/

/-- Where a string is within an escape. A high surrogate waits for its other half. -/
inductive Escape
  | plain
  | begun
  | hex (left value : Nat) (high : Option Nat)
  | highDone (high : Nat)
  | highBegun (high : Nat)

def hexValue? (c : Char) : Option Nat :=
  if '0' ≤ c ∧ c ≤ '9' then some (c.toNat - 48)
  else if 'a' ≤ c ∧ c ≤ 'f' then some (c.toNat - 87)
  else if 'A' ≤ c ∧ c ≤ 'F' then some (c.toNat - 55)
  else none

/-- Four more bytes of text are there. -/
def hasFourBytes (cs : List Char) : Bool := 4 ≤ (cs.take 4).foldl (fun n c => n + c.utf8Size) 0

def namedEscape? (c : Char) : Option Char :=
  match c with
  | '"' => some '"'
  | '\\' => some '\\'
  | '/' => some '/'
  | 'b' => some '\x08'
  | 'f' => some '\x0c'
  | 'n' => some '\n'
  | 'r' => some '\r'
  | 't' => some '\t'
  | _ => none

def isHighSurrogate (n : Nat) : Bool := decide (0xd800 ≤ n ∧ n ≤ 0xdbff)

def isLowSurrogate (n : Nat) : Bool := decide (0xdc00 ≤ n ∧ n ≤ 0xdfff)

/-- The string that begins behind its opening quote, with what follows it. `strict` is for a
string that is wanted: its surrogates have to come in pairs. In one that is passed over they
need not. The characters read so far come last first. -/
def stringFrom (strict : Bool) (done : List Char) :
    Escape → List Char → Except Defect (List Char × List Char)
  | _, [] => .error .cutShort
  | .plain, c :: cs =>
    if c = '"' then .ok (done.reverse, cs)
    else if c = '\\' then stringFrom strict done .begun cs
    else if c.toNat < 0x20 then .error .malformed
    else stringFrom strict (c :: done) .plain cs
  | .begun, c :: cs =>
    if c = 'u' then
      if hasFourBytes cs then stringFrom strict done (.hex 4 0 none) cs else .error .cutShort
    else
      match namedEscape? c with
      | some d => stringFrom strict (d :: done) .plain cs
      | none => .error .malformed
  | .hex left value high, c :: cs =>
    match hexValue? c with
    | none => .error .malformed
    | some d =>
      let n := 16 * value + d
      if 1 < left then stringFrom strict done (.hex (left - 1) n high) cs
      else if !strict then stringFrom strict done .plain cs
      else
        match high with
        | some h =>
          if isLowSurrogate n then
            let point := (h - 0xd800) * 0x400 + (n - 0xdc00) + 0x10000
            stringFrom strict (Char.ofNat point :: done) .plain cs
          else .error .malformed
        | none =>
          if isLowSurrogate n then .error .malformed
          else if isHighSurrogate n then stringFrom strict done (.highDone n) cs
          else stringFrom strict (Char.ofNat n :: done) .plain cs
  | .highDone h, c :: cs =>
    if c = '\\' then stringFrom strict done (.highBegun h) cs else .error .malformed
  | .highBegun h, c :: cs =>
    if c = 'u' then
      if hasFourBytes cs then stringFrom strict done (.hex 4 0 (some h)) cs else .error .cutShort
    else .error .malformed

/-- A string behind its opening quote. -/
def stringBody (strict : Bool) : Reader String := fun cs =>
  (stringFrom strict [] .plain cs).map fun (body, rest) => (String.ofList body, rest)

end Subtitles.Json
