/-
# CommandLine: what the program is asked for

The program knows the command `play` with its options, and requests for help and for its
version. Arguments are taken in order: an option is checked with its value before the next one
is looked at, and the first request for help ends it. A value is attached to its option with
`=`, or is the next argument if that does not look like an option.
-/
import Subtitles.Decimal.Reading
import Subtitles.Player
namespace Subtitles

set_option autoImplicit false

structure PlayCommand where
  /-- The path of the script. -/
  input : String
  settings : PlaySettings
  /-- The directory for pictures. -/
  pictureDirectory : Option String := none
  verbose : Bool := false
  deriving DecidableEq, Repr

inductive Request
  | play (c : PlayCommand)
  | help
  | version
  deriving DecidableEq, Repr

namespace CommandLine

/-! ## Values -/

def path? (s : String) : Option String := if s.isEmpty then none else some s

def number? (s : String) : Option Binary64 := Reading.number? s.toList

/-- Pixels in a row or a column. -/
def extent? (s : String) : Option UInt32 := do
  let i ← Reading.integer? s.toList
  if 0 ≤ i ∧ i < 0x100000000 then some (UInt32.ofNat i.toNat) else none

def count? (s : String) : Option UInt64 := do
  let n ← Reading.natural? s.toList
  if n < 0x10000000000000000 then some (UInt64.ofNat n) else none

/-- An argument that may be the value of the option before it. -/
def isValue (s : String) : Bool := s = "-" || s.toList.head? ≠ some '-'

/-! ## Options -/

structure PlayDraft where
  input : Option String := none
  fps : Option Binary64 := none
  width : Option UInt32 := none
  height : Option UInt32 := none
  renderAhead : Option UInt64 := none
  duration : Option Binary64 := none
  pictureDirectory : Option String := none
  verbose : Bool := false

/-- The value an option gets, which may be given once. -/
def once {α : Type} (earlier : Option α) (value : Option α) : Option (Option α) :=
  if earlier.isSome then none else value.map some

/-- Enter an option with its value. -/
def enter (name value : String) (d : PlayDraft) : Option PlayDraft :=
  match name with
  | "in" => (once d.input (path? value)).map ({ d with input := · })
  | "fps" => (once d.fps (number? value)).map ({ d with fps := · })
  | "width" => (once d.width (extent? value)).map ({ d with width := · })
  | "height" => (once d.height (extent? value)).map ({ d with height := · })
  | "render-ahead" => (once d.renderAhead (count? value)).map ({ d with renderAhead := · })
  | "duration" => (once d.duration (number? value)).map ({ d with duration := · })
  | "dump-dir" => (once d.pictureDirectory (path? value)).map ({ d with pictureDirectory := · })
  | _ => none

def PlayDraft.finish (d : PlayDraft) : Option Request := do
  let defaults : PlaySettings := {}
  let settings : PlaySettings :=
    { fps := d.fps.getD defaults.fps
      width := d.width.getD defaults.width
      height := d.height.getD defaults.height
      renderAhead := d.renderAhead.getD defaults.renderAhead
      duration := d.duration
      pictures := d.pictureDirectory.isSome }
  return .play ⟨← d.input, settings, d.pictureDirectory, d.verbose⟩

/-- An argument that asks for help by its letter; more letters may follow. -/
def asksForHelp : List Char → Bool
  | '-' :: 'h' :: _ => true
  | _ => false

/-- The name of a long option, and the value attached to it. -/
def longOption? : List Char → Option (String × Option String)
  | '-' :: '-' :: body =>
    let name := String.ofList (body.takeWhile (· ≠ '='))
    match body.dropWhile (· ≠ '=') with
    | [] => some (name, none)
    | _ :: value => some (name, some (String.ofList value))
  | _ => none

/-- The arguments behind `play`. -/
def playFrom (d : PlayDraft) : List String → Option Request
  | [] => d.finish
  | argument :: rest =>
    match longOption? argument.toList with
    | none => if asksForHelp argument.toList then some .help else none
    | some ("", none) => if rest.isEmpty then d.finish else none
    | some ("help", none) => some .help
    | some ("verbose", none) => if d.verbose then none else playFrom { d with verbose := true } rest
    | some (name, some value) => (enter name value d).bind fun d => playFrom d rest
    | some (name, none) =>
      match rest with
      | [] => none
      | value :: rest =>
        if isValue value then (enter name value d).bind fun d => playFrom d rest else none

/-- Help is there for the program, for `play` and for `help` itself. -/
def helpFor : List String → Option Request
  | [] | ["play"] | ["help"] => some .help
  | _ => none

/-- What the arguments ask for, if they are understood. -/
def parse? : List String → Option Request
  | "play" :: rest => playFrom {} rest
  | "help" :: rest => helpFor rest
  | "--help" :: _ => some .help
  | "--version" :: _ => some .version
  | argument :: _ =>
    match argument.toList with
    | '-' :: 'h' :: _ => some .help
    | '-' :: 'V' :: _ => some .version
    | _ => none
  | [] => none

end CommandLine
end Subtitles
