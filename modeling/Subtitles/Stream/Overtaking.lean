/-
# Stream.Overtaking: an acquire overtaken by a flush

The worker has begun to render an entry, and an acquire waits for it, when another acquire
changes the geometry. That one flushes the queue and is refused, because a frame is being
taken out. The waiting acquire finds its entry flushed, the worker publishes into an entry
that nobody will look at, and the frame is rendered on demand after all.
-/
import Subtitles.Stream.Checkout
import Subtitles.Stream.Worker
namespace Subtitles

set_option autoImplicit false

/-- What became of the two acquires. -/
structure Overtaken where
  first : Acquired
  second : Lookup
  deriving DecidableEq, Repr

namespace Stream

variable {σ : Type} [Backend σ]

/-- Queue `pts`; while the worker renders it and `acquire` waits for it, acquire it for `g`.
Nothing happens beyond the request where that is dropped. -/
def overtake (pts : Binary64) (g : Geometry) (s : Stream σ) : Option Overtaken × Stream σ :=
  let geometry := s.geometry
  let (requested, cache) := s.cache.request pts
  let s := { s with cache }
  match requested, s.nextJob with
  | some _, some (job, jobPts) =>
    let (inFlight, s) := s.startRender job jobPts
    let (waiting, s) := s.lookUp geometry pts
    let (second, s) := s.lookUp g pts
    let (first, s) := match waiting with
      | .waiting h => s.resume pts h
      | answer => (answer, s)
    let s := match inFlight with
      | some r => s.finishRender r
      | none => s
    match first with
    | .hit f => (some ⟨.frame f, second⟩, s)
    | .waiting _ => (some ⟨.stalled, second⟩, s)
    | .refused f => (some ⟨.fault f, second⟩, s)
    | .miss =>
      let (frame, s) := s.renderOnDemand geometry pts
      (some ⟨frame, second⟩, s)
  | _, _ => (none, s)

end Stream
end Subtitles
