/-
# Cache.Entry: what the cache keeps, and what it counts

An entry stands for one presentation time. It is pending until a render is published for it;
then it owns a frame, or shows what another entry shows and holds a reference on that one.

Whether an entry is rendered is read off its storage. A flag kept beside it would say the same: an
entry is made pending and not rendered, and the two ways to publish a render write flag and storage
together. References are counted in `Nat`. That stands for words of 32 bits as long as no entry has
2 ^ 32 references.
-/
import Subtitles.Cache.Arena
import Subtitles.Frame
namespace Subtitles

set_option autoImplicit false

inductive Storage
  | pending
  | owned (frame : Frame)
  | shared (owner : Handle)
  deriving DecidableEq, Repr

structure Entry where
  pts : Binary64
  /-- References on the entry: the queue's, the callers', and one of each entry sharing from it. -/
  references : Nat
  storage : Storage
  deriving DecidableEq, Repr

def Entry.isRendered (e : Entry) : Bool := e.storage != .pending

/-- What the cache did since it was made. -/
structure Counters where
  requested : Nat := 0
  refusedFull : Nat := 0
  refusedLate : Nat := 0
  pruned : Nat := 0
  flushed : Nat := 0
  freed : Nat := 0
  storagesMade : Nat := 0
  storagesFreed : Nat := 0
  shared : Nat := 0
  deriving DecidableEq, Repr

/-- Renders that reached the cache. -/
def Counters.published (c : Counters) : Nat := c.storagesMade + c.shared

/-- The counters with the present size of the queue and of the arena. -/
structure Stats extends Counters where
  queued : Nat
  live : Nat
  deriving DecidableEq, Repr

end Subtitles
