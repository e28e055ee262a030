/-
# Program: playing scripts from a command line

The program reads a script, plays it and writes pictures of the frames that changed. What it
does to the machine it runs on goes through a `Host`, so `Program.run` is the whole program
for any of them: the operating system's files and terminal, or a record of what was said and
written.
-/
import Subtitles.CommandLine
import Subtitles.Decimal.Notation
namespace Subtitles

set_option autoImplicit false

/-- What the program needs of its machine. An operation that may fail says whether it worked. -/
structure Host (m : Type → Type) where
  readText : String → m (Option String)
  /-- Make a directory and those around it, unless they are there. -/
  createDirectory : String → m Bool
  /-- Write a picture of this width and height, four bytes a pixel. -/
  writePicture : String → UInt32 → UInt32 → Bytes → m Bool
  say : String → m Unit

/-- Why a script is not played to its end. -/
inductive PlayError
  | frameRate (fps : Binary64)
  | unreadable (path : String)
  | malformed (path : String)
  | stream (e : SubtitleError)
  | noDirectory (path : String)
  | unwritable (path : String)
  deriving DecidableEq, Repr

def PlayError.message : PlayError → String
  | .frameRate fps => "fps must be positive, got " ++ Notation.message.write fps
  | .unreadable path => s!"read script '{path}'"
  | .malformed path => s!"parse script '{path}'"
  | .stream e => e.message
  | .noDirectory path => s!"create dump dir '{path}'"
  | .unwritable path => s!"write png '{path}'"

/-- How the program ends. -/
inductive Exit
  | done
  | failed (e : PlayError)
  | misused
  | stopped (stop : Stop)
  deriving DecidableEq, Repr

namespace Exit

def code : Exit → UInt32
  | .done => 0
  | .failed _ => 1
  | .misused => 2
  | .stopped _ => 101

/-- What is said at the end, if anything. -/
def message? : Exit → Option String
  | .done => none
  | .failed e => some ("Error: " ++ e.message)
  | .misused => some "The arguments are not understood; try --help."
  | .stopped (.fault f) => some ("Fault: " ++ f.message)
  | .stopped .stalled => some "Fault: the worker is gone"

end Exit

namespace Program

def version : String := "subtitles 0.1.0"

def usage : String :=
  "Usage: subtitles play --in SCRIPT [--fps RATE] [--width PIXELS] [--height PIXELS]\n" ++
    "  [--render-ahead FRAMES] [--duration SECONDS] [--dump-dir DIRECTORY] [--verbose]"

/-! ## What is said -/

def backendLine (p : Player) : String :=
  let mode := if p.stream.threaded then "render-ahead" else "synchronous"
  s!"backend {p.stream.backendName} ({mode})"

def playedLine (t : Tally) : String :=
  s!"played {t.frames} frames ({t.preRendered} pre-rendered), dumped {t.pictures}"

def cacheLine (s : Stats) : String :=
  let dropped := s.refusedFull + s.refusedLate
  s!"cache: requested {s.requested} published {s.toCounters.published} shared {s.shared}" ++
    s!" pruned {s.pruned} dropped {dropped}"

/-! ## Files -/

/-- A number with at least six digits. -/
def sixDigits (n : Nat) : String :=
  let digits := (toString n).toList
  String.ofList (List.replicate (6 - digits.length) '0' ++ digits)

def picturePath (directory : String) (index : Nat) : String :=
  let separator := if directory.toList.getLast? = some '/' then "" else "/"
  directory ++ separator ++ "frame_" ++ sixDigits index ++ ".png"

/-! ## Playing -/

variable {m : Type → Type} [Monad m]

/-- Write the picture of a frame. There is no file of a picture without pixels. -/
def writePicture (host : Host m) (c : PlayCommand) (path : String) (picture : Bytes) : m Bool := do
  if c.settings.geometry.isVoid then return false
  else
    if c.verbose then host.say ("writing " ++ path)
    host.writePicture path c.settings.width c.settings.height picture

/-- Show so many frames and write the pictures made of them. -/
def showFrames (host : Host m) (c : PlayCommand) : Nat → Player → m (Except Exit Player)
  | 0, p => return .ok p
  | count + 1, p => do
    match p.showNext with
    | .error stop => return .error (.stopped stop)
    | .ok (⟨index, _, some picture⟩, p) =>
      let path := picturePath (c.pictureDirectory.getD "") index
      if ← writePicture host c path picture then showFrames host c count p
      else return .error (.failed (.unwritable path))
    | .ok (⟨_, _, none⟩, p) => showFrames host c count p

/-- The script of a command, read and understood. -/
def readScript (host : Host m) (c : PlayCommand) : m (Except PlayError Script) := do
  if !c.settings.hasRate then return .error (.frameRate c.settings.fps)
  match ← host.readText c.input with
  | none => return .error (.unreadable c.input)
  | some text =>
    match Script.ofText? text with
    | none => return .error (.malformed c.input)
    | some script => return .ok script

def play (host : Host m) (c : PlayCommand) : m Exit := do
  match ← readScript host c with
  | .error e => return .failed e
  | .ok script =>
    match Player.open? c.settings script with
    | .error e => return .failed (.stream e)
    | .ok p =>
      host.say (backendLine p)
      if let some directory := c.pictureDirectory then
        if !(← host.createDirectory directory) then return .failed (.noDirectory directory)
      let frames := c.settings.frameCount script
      match ← showFrames host c frames (p.prime frames) with
      | .error exit => return exit
      | .ok p =>
        host.say (playedLine p.tally)
        host.say (cacheLine p.stream.cache.stats)
        return .done

/-- The program: do what the arguments ask for. -/
def run (host : Host m) (arguments : List String) : m Exit := do
  let exit ← match CommandLine.parse? arguments with
    | some (.play c) => play host c
    | some .help => do host.say usage; pure .done
    | some .version => do host.say version; pure .done
    | none => pure .misused
  if let some message := exit.message? then host.say message
  return exit

end Program
end Subtitles
