/-
# Session: a stream and the one frame its caller holds

A session performs one action after another, and after each the worker runs until it sleeps.
While a frame rendered on demand is out it holds the backend, and an action that needs the
backend, or a lock held together with it, would wait for the frame's return for ever; it is
refused instead, as is draining a source that somebody may still feed.
-/
import Subtitles.Stream.Overtaking
namespace Subtitles

set_option autoImplicit false

inductive Action
  | offer (p : Packet)
  | request (pts : Binary64)
  | prepare (pts : Binary64)
  | drain
  | text (pts : Binary64)
  | control (command : Command)
  | select (on : Bool)
  | video (params : VideoFormat)
  | reset
  | acquire (g : Geometry) (pts : Binary64)
  | release
  /-- Put a packet into the source, if a sender is left. -/
  | send (p : Packet)
  /-- Give up the sender. -/
  | close
  | overtake (pts : Binary64) (g : Geometry)
  deriving DecidableEq, Repr

inductive Refusal
  | frameHeld
  | wouldBlock
  | notApplicable
  | requestDropped
  deriving DecidableEq, Repr

def Refusal.message : Refusal → String
  | .frameHeld => "frame held"
  | .wouldBlock => "would block"
  | .notApplicable => "not applicable"
  | .requestDropped => "request dropped"

inductive Answer
  | nothing
  | flag (b : Bool)
  | text (t : Option String)
  | reply (r : Reply)
  | frame (f : HeldFrame)
  /-- A frame whose acquire was overtaken by one that ran into a fault. -/
  | overtaken (f : HeldFrame) (other : Fault)
  | closed
  | fault (f : Fault)
  | stalled
  | refused (r : Refusal)
  deriving DecidableEq, Repr

/-- Actions that wait for a frame rendered on demand to come back. -/
def Action.needsBackend : Action → Bool
  | .acquire .. | .release | .send _ | .close => false
  | _ => true

structure Session (σ : Type) where
  stream : Stream σ
  held : Option HeldFrame := none

namespace Session

variable {σ : Type} [Backend σ]

/-- The frame that is out holds the backend. -/
def holdsBackend (s : Session σ) : Bool := s.held.any fun f => !f.isCached

/-- Go on with the stream as a call left it; a fault leaves it as it was. -/
def after (s : Session σ) (answer : Answer) : Except Fault (Stream σ) → Answer × Session σ
  | .ok stream => (answer, { s with stream })
  | .error f => (.fault f, s)

def acquire (g : Geometry) (pts : Binary64) (s : Session σ) : Answer × Session σ :=
  match s.stream.acquire g pts with
  | (.frame f, stream) => (.frame f, ⟨stream, some f⟩)
  | (.fault f, stream) => (.fault f, { s with stream })
  | (.stalled, stream) => (.stalled, { s with stream })

def release (s : Session σ) : Answer × Session σ :=
  match s.held with
  | none => (.flag false, s)
  | some f => { s with held := none }.after (.flag true) (s.stream.release f)

/-- An acquire can be overtaken while no frame is out, if there are frames rendered ahead for a
geometry that is not the one it is overtaken with. -/
def canOvertake (g : Geometry) (s : Session σ) : Bool :=
  let stream := s.stream
  s.held.isNone && !stream.geometry.isVoid && !decide (stream.geometry.Same g) && !stream.cache.queue.isEmpty

def overtake (pts : Binary64) (g : Geometry) (s : Session σ) : Answer × Session σ :=
  if !s.canOvertake g then (.refused .notApplicable, s)
  else
    match s.stream.overtake pts g with
    | (some ⟨.frame f, .refused other⟩, stream) => (.overtaken f other, ⟨stream, some f⟩)
    | (some ⟨.frame f, _⟩, stream) => (.frame f, ⟨stream, some f⟩)
    | (some ⟨.fault f, _⟩, stream) => (.fault f, { s with stream })
    | (some ⟨.stalled, _⟩, stream) => (.stalled, { s with stream })
    | (none, stream) => (.refused .requestDropped, { s with stream })

/-- What an action does before the worker gets its turn. -/
def perform (a : Action) (s : Session σ) : Answer × Session σ :=
  let stream := s.stream
  match a with
  | .offer p => (.nothing, { s with stream := stream.offer p })
  | .request pts => (.nothing, { s with stream := stream.request pts })
  | .prepare pts =>
    let (ready, stream) := stream.prepare pts
    (.flag ready, { s with stream })
  | .drain =>
    if stream.source.isOpen then (.refused .wouldBlock, s)
    else
      match stream.drain with
      | (some done, stream) => (.flag done, { s with stream })
      | (none, stream) => (.refused .wouldBlock, { s with stream })
  | .text pts =>
    let (text, stream) := stream.text pts
    (.text text, { s with stream })
  | .control command =>
    let (reply, stream) := stream.control command
    (.reply reply, { s with stream })
  | .select on => (.nothing, { s with stream := stream.select on })
  | .video params => (.nothing, { s with stream := stream.noteVideo params })
  | .reset => s.after .nothing stream.reset
  | .acquire g pts => s.acquire g pts
  | .release => s.release
  | .send p =>
    match stream.source.send? p with
    | some source => (.flag true, { s with stream := { stream with source } })
    | none => (.closed, s)
  | .close =>
    (.flag stream.source.isOpen, { s with stream := { stream with source := stream.source.closeSender } })
  | .overtake pts g => s.overtake pts g

/-- One action, and the worker's turn after it. -/
def step (a : Action) (s : Session σ) : Answer × Session σ :=
  if s.holdsBackend && a.needsBackend then (.refused .frameHeld, s)
  else
    let (answer, s) := s.perform a
    (answer, { s with stream := s.stream.settle })

/-- The actions in order, with their answers. -/
def run (s : Session σ) : List Action → List Answer × Session σ
  | [] => ([], s)
  | a :: rest =>
    let (answer, s) := s.step a
    let (answers, s) := s.run rest
    (answer :: answers, s)

/-- Give back the frame that is out, and end the stream. -/
def finish (s : Session σ) : Except Fault (Stream σ) := do
  let stream ← match s.held with
    | some f => s.stream.release f
    | none => .ok s.stream
  stream.settle.close

end Session
end Subtitles
