/-
# Backends

A backend decodes packets of one codec into a state and renders that state for a presentation
time and a geometry. The optional operations have defaults. A backend whose `accepts` answers
anything at all pushes back: it wants its packets one at a time, as it has room for them.

`openFirst` tries candidates in order and keeps the first that takes the codec.
-/
import Subtitles.Frame
import Subtitles.Geometry
namespace Subtitles

set_option autoImplicit false

/-- A command to a backend. -/
inductive Command
  /-- Find the start of an event so many after (before, if negative) a time. -/
  | step (pts : Binary64) (movement : Int32)
  /-- The video under the subtitles changed. -/
  | video (params : VideoFormat)
  /-- Place subtitles at the top instead of the bottom. -/
  | top (atTop : Bool)
  /-- The frame rate to assume for timing in frames. -/
  | frameRate (fps : Binary64)
  deriving DecidableEq, Repr

inductive Reply
  /-- The backend does not know the command. -/
  | unknown
  | done
  /-- From the reference time of a step to the event found, in seconds. -/
  | delta (seconds : Binary64)
  deriving DecidableEq, Repr

class Backend (σ : Type) where
  name : σ → String
  /-- Prepare for a codec; an error says that the backend cannot take the stream. -/
  init : Codec → σ → Except SubtitleError Unit × σ
  /-- Apply one packet. A malformed one is skipped. -/
  decode : Packet → σ → σ
  /-- Render what is decoded. A fault leaves the state as far as it got. -/
  render : Geometry → Binary64 → σ → Except Fault Frame × σ
  /-- The text visible at a time. -/
  text : Binary64 → σ → Option String × σ := fun _ s => (none, s)
  /-- Whether there is room for a packet; nothing from a backend that always has. -/
  accepts : σ → Option Bool := fun _ => none
  /-- Forget what a seek makes useless. -/
  reset : σ → σ := id
  select : Bool → σ → σ := fun _ s => s
  control : Command → σ → Reply × σ := fun _ s => (.unknown, s)
  /-- The last call a backend gets. -/
  close : σ → σ := id

/-- A candidate's name and its answer to a codec. -/
structure Trial where
  name : String
  answer : Except SubtitleError Unit

/-- The first candidate that takes the codec, after the candidates tried. -/
def openFirst {σ : Type} [Backend σ] (codec : Codec) :
    List σ → List Trial × Except SubtitleError σ
  | [] => ([], .error (.noDecoder codec.name))
  | s :: rest =>
    let (answer, s') := Backend.init codec s
    let trial : Trial := ⟨Backend.name s, answer⟩
    match answer with
    | .ok () => ([trial], .ok s')
    | .error _ =>
      let (trials, result) := openFirst codec rest
      (trial :: trials, result)

end Subtitles
