/-
# TextBackend: plain timed text

Every packet with a timestamp and valid UTF-8 is an event. A render shows the lines of the
events active at its time. Its change number is 0 when the events, the geometry and the
alignment are those of the render before it, and otherwise one more than any before.
-/
import Subtitles.Backend
import Subtitles.TextBackend.Event
import Subtitles.TextBackend.Layout
namespace Subtitles

set_option autoImplicit false

/-- What a render of text depends on. -/
structure TextKey where
  active : List Nat
  geometry : Geometry
  atTop : Bool
  deriving Repr

def TextKey.Same (k l : TextKey) : Prop :=
  k.active = l.active ∧ k.geometry.Same l.geometry ∧ k.atTop = l.atTop

instance TextKey.decidableSame (k l : TextKey) : Decidable (k.Same l) := inferInstanceAs (Decidable (_ ∧ _ ∧ _))

structure TextBackend where
  events : List Event := []
  nextId : Nat := 0
  atTop : Bool := false
  lastKey : Option TextKey := none
  changes : Nat := 0
  deriving Repr

namespace TextBackend

def codecs : List String := ["text", "subrip", "webvtt"]

def color : Color := .white

def init (codec : Codec) (b : TextBackend) : Except SubtitleError Unit × TextBackend :=
  if codecs.contains codec.name then (.ok (), b)
  else (.error (.backend s!"text backend does not handle codec '{codec.name}'"), b)

/-- The start and the text of a packet that can be shown. -/
def readable? (p : Packet) : Option (Binary64 × String) := do
  let start ← p.pts
  let text ← String.fromUTF8? ⟨p.data⟩
  return (start, Event.normalise text)

def decode (p : Packet) (b : TextBackend) : TextBackend :=
  match readable? p with
  | none => b
  | some (start, text) =>
    if Event.isRepeated start text b.events then b
    else
      let e : Event := ⟨b.nextId, start, p.duration.map (start + ·), text⟩
      { b with events := e.insert b.events, nextId := b.nextId + 1 }

def active (b : TextBackend) (pts : Binary64) : List Event := Event.visibleAt pts b.events

/-- The lines of events that are not blank. -/
def visibleLines (es : List Event) : List (List Char) :=
  (es.flatMap fun e => Text.lines e.text.toList).filter fun line => !Text.allBlank line

/-- What a geometry shows of the events active at a time. -/
def content (b : TextBackend) (g : Geometry) (pts : Binary64) : Except Fault (List Part) :=
  if g.isVoid then .ok []
  else TextLayout.parts g b.atTop color (visibleLines (b.active pts))

def key (b : TextBackend) (g : Geometry) (pts : Binary64) : TextKey :=
  ⟨(b.active pts).map (·.id), g, b.atTop⟩

/-- Note the key of a render; the change number it gets and the state after it. -/
def noteKey (b : TextBackend) (k : TextKey) : Nat × TextBackend :=
  if b.lastKey.any fun l => decide (l.Same k) then (0, { b with lastKey := some k })
  else (b.changes + 1, { b with lastKey := some k, changes := b.changes + 1 })

def render (g : Geometry) (pts : Binary64) (b : TextBackend) : Except Fault Frame × TextBackend :=
  let (changeId, b') := b.noteKey (b.key g pts)
  let frame := (b.content g pts).map fun parts =>
    ⟨if parts.isEmpty then .empty else .alpha8, parts, changeId⟩
  (frame, b')

/-- The texts of the active events that have any, one below the other. -/
def text? (b : TextBackend) (pts : Binary64) : Option String :=
  let texts := ((b.active pts).map (·.text)).filter (· ≠ "")
  if texts.isEmpty then none else some ("\n".intercalate texts)

def control (c : Command) (b : TextBackend) : Reply × TextBackend :=
  match c with
  | .step pts movement =>
    match Event.stepFrom b.events pts movement with
    | some target => (.delta (target - pts), b)
    | none => (.done, b)
  | .top atTop => (.done, { b with atTop })
  | .video _ | .frameRate _ => (.unknown, b)

instance : Backend TextBackend where
  name _ := "text"
  init := init
  decode := decode
  render := render
  text pts b := (b.text? pts, b)
  reset b := { b with lastKey := none }
  control := control

end TextBackend
end Subtitles
