/-
# Cache.Job: one render of the worker

A worker takes the earliest pending entry, renders without the cache, and publishes. In
between, others prune, flush and request as they like; references on the entry and on its
rendered predecessor keep both until the worker is done with them.
-/
import Subtitles.Cache
namespace Subtitles

set_option autoImplicit false

/-- A pending entry with its predecessor in the queue, if that one is rendered. The worker
holds a reference on each. -/
structure Job where
  entry : Handle
  predecessor : Option Handle
  deriving DecidableEq, Repr

namespace Cache

/-- The first pending entry of a queue, and the entry before it. -/
def firstPendingFrom (c : Cache) (before : Option Handle) : List Handle → Option Job
  | [] => none
  | h :: rest =>
    if (c.entry? h).any (!·.isRendered) then some ⟨h, before.filter c.isRendered⟩
    else c.firstPendingFrom (some h) rest

def firstPending (c : Cache) : Option Job := c.firstPendingFrom none c.queue

/-- Hold what a job needs. -/
def begin (c : Cache) (job : Job) : Except Fault Cache := do
  let c ← c.addReference job.entry
  match job.predecessor with
  | some p => c.addReference p
  | none => return c

/-- Publish the render of a job: shared with its predecessor, or as a frame of its own. The
reference on the predecessor goes to the entry or back, the one on the entry back. -/
def finish (c : Cache) (job : Job) (share : Bool) (frame : Frame) : Except Fault Cache := do
  let c ← match job.predecessor, share with
    | some p, true => c.share job.entry p
    | some p, false => do (← c.publish job.entry frame).release p
    | none, _ => c.publish job.entry frame
  c.release job.entry

/-- One whole job: begin it, and finish it with a frame that is known already. -/
def renderNext (c : Cache) (share : Bool) (frame : Frame) : Except Fault (Option Handle × Cache) :=
  match c.firstPending with
  | none => .ok (none, c)
  | some job => do
    let c ← c.begin job
    return (some job.entry, ← c.finish job share frame)

end Cache
end Subtitles
