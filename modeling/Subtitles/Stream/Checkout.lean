/-
# Stream.Checkout: frames out and back

At most one frame of a stream is out. `acquire` looks in the cache first: an entry for exactly
the time asked for is held as `current` while its frame is out, and one that is not rendered
yet is waited for. Anything else is rendered on demand, and holds the backend until it is back.
-/
import Subtitles.Stream
namespace Subtitles

set_option autoImplicit false

/-- What a frame that is out holds: a reference on a cache entry, or the backend. -/
inductive Holding
  | cached (entry : Handle)
  | reserved
  deriving DecidableEq, Repr

structure HeldFrame where
  pts : Binary64
  frame : Frame
  hold : Holding
  deriving DecidableEq, Repr

def HeldFrame.isCached (f : HeldFrame) : Bool :=
  match f.hold with
  | .cached _ => true
  | .reserved => false

/-- The answer of the cache to an acquire. -/
inductive Lookup
  | hit (f : HeldFrame)
  /-- The entry is queued but not rendered yet. -/
  | waiting (entry : Handle)
  | miss
  | refused (f : Fault)
  deriving DecidableEq, Repr

inductive Acquired
  | frame (f : HeldFrame)
  | fault (f : Fault)
  /-- The entry waits for a worker that sleeps or is gone. -/
  | stalled
  deriving DecidableEq, Repr

namespace Stream

variable {σ : Type} [Backend σ]

/-- Render for another geometry from now on; frames for the old one are flushed. -/
def adopt (g : Geometry) (s : Stream σ) : Except Fault (Stream σ) :=
  if s.geometry.Same g then .ok s
  else do return { s with geometry := g, cache := ← s.cache.flush }

omit [Backend σ] in
theorem adopt_cases {s t : Stream σ} {g : Geometry} (adopted : s.adopt g = .ok t) :
    (s.geometry.Same g ∧ t = s) ∨ ∃ cache, s.cache.flush = .ok cache ∧ t = { s with geometry := g, cache } := by
  unfold adopt at adopted
  split at adopted
  · next same => exact .inl ⟨same, (Except.ok.inj adopted).symm⟩
  · cases flushed : s.cache.flush with
    | error f =>
        rw [flushed] at adopted
        cases adopted
    | ok cache =>
        rw [flushed] at adopted
        exact .inr ⟨cache, rfl, (Except.ok.inj adopted).symm⟩

/-- Look again at an entry that was found: it is rendered, or still to be waited for, or was
flushed before it was rendered, and its reference goes back. -/
def resume (pts : Binary64) (h : Handle) (s : Stream σ) : Lookup × Stream σ :=
  match s.cache.frame? h with
  | some frame => (.hit ⟨pts, frame, .cached h⟩, s)
  | none =>
    if s.cache.isQueued h then (.waiting h, s)
    else
      match s.cache.release h with
      | .ok cache => (.miss, { s with cache, current := none })
      | .error f => (.refused f, { s with current := none })

/-- Take the entry for `pts` out of the cache. Another geometry is adopted even where a frame
is out and the acquire is refused. -/
def lookUp (g : Geometry) (pts : Binary64) (s : Stream σ) : Lookup × Stream σ :=
  if !s.threaded then (.miss, s)
  else
    match s.adopt g with
    | .error f => (.refused f, s)
    | .ok s =>
      if s.current.isSome || s.reserved then (.refused (.checkout .acquiredTwice), s)
      else if g.isVoid then (.miss, s)
      else
        match s.cache.checkOut pts with
        | .error f => (.refused f, s)
        | .ok (none, cache) => (.miss, { s with cache })
        | .ok (some h, cache) => { s with cache, current := some h }.resume pts h

/-- Render on demand. The reservation stays where the render faults. -/
def renderOnDemand (g : Geometry) (pts : Binary64) (s : Stream σ) :
    Acquired × Stream σ :=
  if s.reserved then (.fault (.checkout .alreadyReserved), s)
  else
    let (frame, backend) := s.backend.render .demand g pts
    let s := { s with backend, reserved := true }
    match frame with
    | .ok frame => (.frame ⟨pts, frame, .reserved⟩, s)
    | .error f => (.fault f, s)

/-- The frame for exactly `pts` at `g`. -/
def acquire (g : Geometry) (pts : Binary64) (s : Stream σ) : Acquired × Stream σ :=
  match s.lookUp g pts with
  | (.hit f, s) => (.frame f, s)
  | (.waiting _, s) => (.stalled, s)
  | (.miss, s) => s.renderOnDemand g pts
  | (.refused f, s) => (.fault f, s)

/-- Give a frame back. -/
def release (f : HeldFrame) (s : Stream σ) : Except Fault (Stream σ) :=
  match f.hold with
  | .cached h =>
    if s.current = some h then do
      return { s with current := none, cache := ← s.cache.release h }
    else .error (.checkout .releasedNotCurrent)
  | .reserved =>
    if s.reserved then .ok { s with reserved := false }
    else .error (.checkout .releasedNotReserved)

omit [Backend σ] in
/-- What is given back was out: a reference on the current entry, or the backend. -/
theorem release_cases {f : HeldFrame} {s t : Stream σ} (released : s.release f = .ok t) :
    (∃ h cache, f.hold = .cached h ∧ s.current = some h ∧ s.cache.release h = .ok cache ∧
      t = { s with current := none, cache }) ∨
    (f.hold = .reserved ∧ s.reserved = true ∧ t = { s with reserved := false }) := by
  unfold release at released
  split at released
  · next h hold =>
      split at released
      · next out =>
          cases given : s.cache.release h with
          | error fault =>
              rw [given] at released
              exact absurd released nofun
          | ok cache =>
              rw [given] at released
              exact .inl ⟨h, cache, hold, out, given, (Except.ok.inj released).symm⟩
      · exact absurd released nofun
  · next hold =>
      split at released
      · next taken => exact .inr ⟨hold, taken, (Except.ok.inj released).symm⟩
      · exact absurd released nofun

end Stream
end Subtitles
