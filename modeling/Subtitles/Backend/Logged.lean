/-
# Backend.Logged: a backend and the calls it got

The change number of a frame speaks about the render call before it, so that call is
remembered. The calls themselves are kept too: they are what a stream did to its backend, and
what the laws of a stream are about.
-/
import Subtitles.Backend
namespace Subtitles

set_option autoImplicit false

/-- Who asked for a render: the caller of `acquire`, or the worker. -/
inductive Purpose
  | demand
  | ahead
  deriving DecidableEq, Repr

inductive Call
  | decode (p : Packet)
  | render (purpose : Purpose) (pts : Binary64) (geometry : Geometry) (frame : Frame)
  | text (pts : Binary64)
  | reset
  | select (on : Bool)
  | control (command : Command)
  | close
  deriving DecidableEq, Repr

structure RenderCall where
  pts : Binary64
  geometry : Geometry
  deriving DecidableEq, Repr

def RenderCall.Same (r s : RenderCall) : Prop := r.pts.Same s.pts ∧ r.geometry.Same s.geometry

instance RenderCall.decidableSame (r s : RenderCall) : Decidable (r.Same s) :=
  inferInstanceAs (Decidable (_ ∧ _))

structure LoggedBackend (σ : Type) where
  state : σ
  latest : Option RenderCall := none
  /-- The calls, the latest first. -/
  calls : List Call := []

namespace LoggedBackend

variable {σ : Type} [Backend σ]

def decode (p : Packet) (b : LoggedBackend σ) : LoggedBackend σ :=
  { b with state := Backend.decode p b.state, calls := .decode p :: b.calls }

/-- Render and remember the call; a render that faults is not remembered. -/
def render (purpose : Purpose) (g : Geometry) (pts : Binary64) (b : LoggedBackend σ) :
    Except Fault Frame × LoggedBackend σ :=
  match Backend.render g pts b.state with
  | (.ok frame, state) =>
    (.ok frame, ⟨state, some ⟨pts, g⟩, .render purpose pts g frame :: b.calls⟩)
  | (.error f, state) => (.error f, { b with state })

/-- The render call before this one was for `pts` at `g`. -/
def lastWas (b : LoggedBackend σ) (pts : Binary64) (g : Geometry) : Bool :=
  b.latest.any fun r => decide (r.Same ⟨pts, g⟩)

def text (pts : Binary64) (b : LoggedBackend σ) : Option String × LoggedBackend σ :=
  let (text, state) := Backend.text pts b.state
  (text, { b with state, calls := .text pts :: b.calls })

def reset (b : LoggedBackend σ) : LoggedBackend σ :=
  ⟨Backend.reset b.state, none, .reset :: b.calls⟩

def select (on : Bool) (b : LoggedBackend σ) : LoggedBackend σ :=
  { b with state := Backend.select on b.state, calls := .select on :: b.calls }

def control (c : Command) (b : LoggedBackend σ) : Reply × LoggedBackend σ :=
  let (reply, state) := Backend.control c b.state
  (reply, { b with state, calls := .control c :: b.calls })

def close (b : LoggedBackend σ) : LoggedBackend σ :=
  { b with state := Backend.close b.state, calls := .close :: b.calls }

/-- Go on without the calls so far. -/
def forgetCalls (b : LoggedBackend σ) : LoggedBackend σ := { b with calls := [] }

end LoggedBackend
end Subtitles
