/-
# Player: a script shown frame by frame

A player opens the stream of a script with the built-in backends and shows its frames at even
steps of time. Before frame `i` it reads packets up to the time of the frame as many places
ahead as the options say, so that a worker renders that frame in the meantime. A picture is
made of each frame whose subtitle changed, if pictures are wanted: the change number of the
frame says so, when it is neither 0 nor that of the picture before.

`showNext` shows one frame, and `run` those that follow.
-/
import Subtitles.AnyBackend
import Subtitles.Canvas
import Subtitles.Stream.Checkout
import Subtitles.Stream.Worker
import Subtitles.Script
namespace Subtitles

set_option autoImplicit false

structure PlaySettings where
  /-- Frames in a second. -/
  fps : Binary64 := .ofNat 24
  width : UInt32 := 1280
  height : UInt32 := 720
  renderAhead : UInt64 := 10
  /-- Seconds to play, if not up to the end of the script. -/
  duration : Option Binary64 := none
  /-- Whether pictures are made of the frames that changed. -/
  pictures : Bool := false
  deriving DecidableEq, Repr

namespace PlaySettings

/-- Frames can only be shown at a positive and finite rate. -/
def hasRate (s : PlaySettings) : Bool := s.fps.isFinite && decide (.zero < s.fps)

def geometry (s : PlaySettings) : Geometry := { width := s.width, height := s.height }

def ptsOf (s : PlaySettings) (index : Nat) : Binary64 := .ofNat index / s.fps

/-- Enough frames to reach the end, and at least one. -/
def frameCount (s : PlaySettings) (script : Script) : Nat :=
  ((s.duration.getD script.endTime * s.fps).ceiling.maximum .one).toUInt64.toNat

end PlaySettings

/-- A frame as it was shown, with the bytes of its picture if one was made. -/
structure ShownFrame where
  index : Nat
  frame : HeldFrame
  picture : Option Bytes
  deriving DecidableEq, Repr

/-- What was shown so far. -/
structure Tally where
  frames : Nat := 0
  /-- How many of the frames were rendered ahead. -/
  preRendered : Nat := 0
  pictures : Nat := 0
  /-- The change number of the frame whose picture was made last. -/
  lastPicture : Nat := 0
  deriving DecidableEq, Repr

namespace Tally

/-- A frame of this change number shows something that the picture before does not. -/
def wantsPicture (t : Tally) (changeId : Nat) : Bool := changeId != 0 && changeId != t.lastPicture

/-- Count a frame that is out, and make its picture if it is wanted. -/
def note (settings : PlaySettings) (f : HeldFrame) (t : Tally) :
    Except Fault (ShownFrame × Tally) := do
  let counted := { t with
    frames := t.frames + 1
    preRendered := t.preRendered + if f.isCached then 1 else 0 }
  if settings.pictures && t.wantsPicture f.frame.changeId then
    let picture ← f.frame.composite settings.width settings.height
    return (⟨t.frames, f, some picture⟩,
      { counted with pictures := t.pictures + 1, lastPicture := f.frame.changeId })
  else return (⟨t.frames, f, none⟩, counted)

end Tally

structure Player where
  settings : PlaySettings
  stream : Stream AnyBackend
  tally : Tally := {}

/-- Why no further frame is shown: a fault, or a wait for a worker that is gone. -/
inductive Stop
  | fault (f : Fault)
  | stalled
  deriving DecidableEq, Repr

namespace Player

/-- Open the stream of a script. -/
def open? (settings : PlaySettings) (script : Script) : Except SubtitleError Player := do
  let options : Options := { renderAhead := settings.renderAhead }
  let source := Source.ofPackets script.packets
  let stream ← (Stream.open? script.codec source options AnyBackend.builtin).2
  return { settings, stream := script.video.elim stream stream.noteVideo }

/-- Read packets up to the time of a frame, and let the worker render it. -/
def readFor (settings : PlaySettings) (index : Nat) (stream : Stream AnyBackend) :
    Stream AnyBackend :=
  (stream.prepare (settings.ptsOf index)).2.settle

/-- Read for so many frames from the first on. -/
def readForFirst (settings : PlaySettings) :
    Nat → Stream AnyBackend → Stream AnyBackend
  | 0, stream => stream
  | count + 1, stream => readFor settings count (readForFirst settings count stream)

/-- Read ahead of the first of so many frames. -/
def prime (frames : Nat) (p : Player) : Player :=
  let count := min p.settings.renderAhead.toNat frames + 1
  { p with stream := readForFirst p.settings count p.stream }

/-- Let the worker run, and drop the calls the backend got: a player looks at none of them. -/
def rest (stream : Stream AnyBackend) : Stream AnyBackend :=
  let stream := stream.settle
  { stream with backend := stream.backend.forgetCalls }

/-- Take the next frame out, note it and give it back. -/
def showNext : Player → Except Stop (ShownFrame × Player)
  | ⟨settings, stream, tally⟩ =>
    let stream := readFor settings (tally.frames + settings.renderAhead.toNat) stream
    match stream.acquire settings.geometry (settings.ptsOf tally.frames) with
    | (.stalled, _) => .error .stalled
    | (.fault f, _) => .error (.fault f)
    | (.frame f, stream) =>
      Except.mapError .fault do
        let (shown, tally) ← tally.note settings f
        let stream ← stream.release f
        return (shown, ⟨settings, rest stream, tally⟩)

/-- Show so many frames, or as many of them as there are before it stops. -/
def run : Nat → Player → List ShownFrame × Except Stop Player
  | 0, p => ([], .ok p)
  | count + 1, p =>
    match p.showNext with
    | .error stop => ([], .error stop)
    | .ok (shown, p) =>
      let (rest, ending) := run count p
      (shown :: rest, ending)

end Player

/-- All frames of a script, shown from the first on. -/
def Script.play (settings : PlaySettings) (script : Script) :
    Except SubtitleError (List ShownFrame × Except Stop Player) := do
  let p ← Player.open? settings script
  let frames := settings.frameCount script
  return (p.prime frames).run frames

end Subtitles
