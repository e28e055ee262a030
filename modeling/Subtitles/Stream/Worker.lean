/-
# Stream.Worker: decoding and rendering ahead

The worker decodes pending packets first. Then it renders the earliest pending entry of the
cache for the present geometry, unless that has no pixels. It shares storage with the
predecessor when the render before was the predecessor's, at the same geometry, and the
backend saw no change since. `settle` lets it go on until nothing is left to do.
-/
import Subtitles.Stream
namespace Subtitles

set_option autoImplicit false

/-- A render of the worker that is not published yet. -/
structure InFlight where
  job : Job
  frame : Frame
  /-- The render call before it was for the predecessor. -/
  follows : Bool
  deriving DecidableEq, Repr

namespace Stream

variable {σ : Type} [Backend σ]

def decodePending (s : Stream σ) : Stream σ :=
  { s with backend := s.pending.foldl (fun b p => b.decode p) s.backend, pending := [] }

/-- The worker's next entry with its time; none while the geometry has no pixels. -/
def nextJob (s : Stream σ) : Option (Job × Binary64) :=
  if s.geometry.isVoid then none
  else s.cache.firstPending.bind fun job => (s.cache.pts? job.entry).map (job, ·)

/-- Take hold of a job and render it. A fault on the way ends the worker. -/
def startRender (job : Job) (pts : Binary64) (s : Stream σ) :
    Option InFlight × Stream σ :=
  match s.cache.begin job with
  | .error f => (none, { s with worker := .crashed f })
  | .ok cache =>
    let follows := (job.predecessor.bind s.cache.pts?).any fun p => s.backend.lastWas p s.geometry
    match s.backend.render .ahead s.geometry pts with
    | (.ok frame, backend) => (some ⟨job, frame, follows⟩, { s with cache, backend })
    | (.error f, backend) => (none, { s with cache, backend, worker := .crashed f })

/-- Publish a render and let go of what it held. -/
def finishRender (r : InFlight) (s : Stream σ) : Stream σ :=
  match s.cache.finish r.job (r.follows && r.frame.isUnchanged) r.frame with
  | .ok cache => { s with cache }
  | .error f => { s with worker := .crashed f }

/-- One round of the worker; nothing where it goes to sleep. -/
def workerStep (s : Stream σ) : Option (Stream σ) :=
  if s.worker ≠ .running then none
  else if s.pending ≠ [] then some s.decodePending
  else
    s.nextJob.map fun (job, pts) =>
      match s.startRender job pts with
      | (some r, s) => s.finishRender r
      | (none, s) => s

def settleWithin : Nat → Stream σ → Stream σ
  | 0, s => s
  | rounds + 1, s =>
    match s.workerStep with
    | some s => s.settleWithin rounds
    | none => s

/-- Let the worker run until it sleeps. One round decodes, and each other one renders an entry
of the queue. -/
def settle (s : Stream σ) : Stream σ := s.settleWithin (s.cache.queue.length + 1)

end Stream
end Subtitles
