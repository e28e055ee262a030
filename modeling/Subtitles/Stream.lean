/-
# Stream: one subtitle stream

A stream owns a backend, the source of its packets and the cache of frames rendered
ahead. With a worker, packets wait in `pending` until the worker decodes them, and requested
times wait in the cache until it renders them; without one, packets are decoded as they come.

This module holds the state and what a caller does under its lock, apart from taking frames
out (`Stream.Checkout`); the worker is `Stream.Worker`.
-/
import Subtitles.Backend.Logged
import Subtitles.Cache.Job
import Subtitles.Options
import Subtitles.Source
namespace Subtitles

set_option autoImplicit false

inductive Worker
  | absent
  | running
  /-- A fault ended the worker; what it held stays held. -/
  | crashed (fault : Fault)
  deriving DecidableEq, Repr

structure Stream (σ : Type) where
  codec : Codec
  options : Options
  /-- The backend pushes back: packets go to it one at a time, and no worker runs. -/
  pushesBack : Bool
  worker : Worker
  source : Source
  /-- The timestamp of the packet read last, since opening or the last reset. -/
  lastRead : Option Binary64 := none
  lastVideo : Option VideoFormat := none
  /-- The geometry frames are rendered ahead for. -/
  geometry : Geometry := .unset
  cache : Cache
  /-- Packets the worker has not decoded yet. -/
  pending : List Packet := []
  /-- The source was drained; further packets are dropped. -/
  drained : Bool := false
  /-- The entry of the cached frame that is out. -/
  current : Option Handle := none
  /-- A frame rendered on demand is out. -/
  reserved : Bool := false
  backend : LoggedBackend σ

namespace Stream

variable {σ : Type} [Backend σ]

def ofBackend (codec : Codec) (source : Source) (options : Options) (backend : σ) : Stream σ :=
  let pushesBack := (Backend.accepts backend).isSome
  let threaded := decide (0 < options.renderAhead) && !pushesBack
  { codec, source, options, pushesBack
    worker := if threaded then .running else .absent
    cache := .ofCapacity (options.renderAhead.toNat + Options.spareEntries)
    backend := { state := backend } }

/-- Open a stream with the first candidate that takes its codec, after the candidates tried. -/
def open? (codec : Codec) (source : Source) (options : Options) (candidates : List σ) :
    List Trial × Except SubtitleError (Stream σ) :=
  match options.check with
  | .error e => ([], .error e)
  | .ok () => (openFirst codec candidates).map id (·.map (ofBackend codec source options))

def threaded (s : Stream σ) : Bool := s.worker != .absent

def backendName (s : Stream σ) : String := Backend.name s.backend.state

/-! ## Packets -/

/-- Pass a packet on to the worker, or decode it. -/
def deliver (p : Packet) (s : Stream σ) : Stream σ :=
  if s.threaded then { s with pending := s.pending ++ [p] } else { s with backend := s.backend.decode p }

@[simp] theorem source_deliver (p : Packet) (s : Stream σ) :
    (s.deliver p).source = s.source := by
  unfold deliver; split <;> rfl

/-- Hand a packet to the stream past its source. -/
def offer (p : Packet) (s : Stream σ) : Stream σ :=
  if s.drained then s else s.deliver p

/-- A packet beyond `pts` was the last one read. -/
def sawBeyond (s : Stream σ) (pts : Binary64) : Bool :=
  s.lastRead.any fun last => decide (pts < last)

/-- The backend has no room for a packet. -/
def isFull (s : Stream σ) : Bool :=
  s.pushesBack && Backend.accepts s.backend.state == some false

/-- Read packets until one beyond `pts` was seen, as far as the backend takes them. The answer
is `false` where the source stalls first. -/
def readUntil (pts : Binary64) (s : Stream σ) : Bool × Stream σ :=
  if s.drained || s.sawBeyond pts || s.isFull then (true, s)
  else
    match _polled : s.source.poll with
    | (.packet p, source) =>
      let s := { s with source, lastRead := p.pts }.deliver p
      if p.pts.any fun t => decide (pts < t) then (true, s) else readUntil pts s
    | (.wait, source) => (false, { s with source })
    | (.failed, source) | (.ended, source) => (true, { s with source })
termination_by s.source.remaining
decreasing_by simpa using Source.remaining_poll_packet _polled

/-- Queue a time for rendering ahead, if a worker is there to render it. -/
def request (pts : Binary64) (s : Stream σ) : Stream σ :=
  if s.threaded then { s with cache := (s.cache.request pts).2 } else s

/-- Read the packets needed to show subtitles at `pts`, and queue that time unless the source
stalled. -/
def prepare (pts : Binary64) (s : Stream σ) : Bool × Stream σ :=
  let (ready, s) := s.readUntil pts
  (ready, if ready then s.request pts else s)

/-- Drain the source up to its end, for good. Nothing is read for a backend that pushes back, and
there is no answer while a packet may still be sent. -/
def drain (s : Stream σ) : Option Bool × Stream σ :=
  if s.pushesBack then (some false, s)
  else if s.source.isOpen then (none, s)
  else
    let drained := { s with source := s.source.pastEnd }
    (some true, { s.source.untilEnd.foldl (fun s p => s.deliver p) drained with drained := true })

/-! ## Calls to the backend -/

/-- The text visible at a time, unless subtitles are hidden. -/
def text (pts : Binary64) (s : Stream σ) : Option String × Stream σ :=
  if s.options.visible then
    let (text, backend) := s.backend.text pts
    (text, { s with backend })
  else (none, s)

def select (on : Bool) (s : Stream σ) : Stream σ := { s with backend := s.backend.select on }

def control (command : Command) (s : Stream σ) : Reply × Stream σ :=
  let (reply, backend) := s.backend.control command
  (reply, { s with backend })

/-- Note the parameters of the video. The backend hears of them when they differ from those
noted before. -/
def noteVideo (params : VideoFormat) (s : Stream σ) : Stream σ :=
  if s.lastVideo = some params then s
  else (({ s with lastVideo := some params }).control (.video params)).2

/-- Forget decoded state, queued packets and frames rendered ahead, as after a seek. -/
def reset (s : Stream σ) : Except Fault (Stream σ) := do
  let cache ← s.cache.flush
  return { s with backend := s.backend.reset, lastRead := none, cache, pending := [] }

theorem reset_cases {s t : Stream σ} (done : s.reset = .ok t) :
    ∃ cache, s.cache.flush = .ok cache ∧
      t = { s with backend := s.backend.reset, lastRead := none, cache, pending := [] } := by
  unfold reset at done
  cases flushed : s.cache.flush with
  | error f =>
      rw [flushed] at done
      exact absurd done nofun
  | ok cache =>
      rw [flushed] at done
      exact ⟨cache, rfl, (Except.ok.inj done).symm⟩

/-- End the stream: the worker stops, the cache is flushed and the backend let go. -/
def close (s : Stream σ) : Except Fault (Stream σ) := do
  let cache ← s.cache.flush
  let s := { s with worker := .absent, cache, pending := [] }
  if s.current.isSome then throw (.checkout .closedWhileOut)
  return { s with backend := s.backend.reset.close }

end Stream
end Subtitles
