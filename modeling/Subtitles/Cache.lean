/-
# Cache: frames rendered ahead of time

The cache queues presentation times in strictly increasing order, at most `capacity` of them.
Each is an entry of an arena under a counted handle: the queue holds one reference, callers
and sharing entries hold others, and an entry is freed when the last one is given back.
Freeing an entry that shares gives back its reference on the owner, and so on along the chain
of sharing; `release` ends because each step takes a value out of the arena.

A caller that breaks the rules of counting runs into a fault. Giving back what one never had
may free an entry that is still queued; the queue then notices.
-/
import Subtitles.Cache.Entry
namespace Subtitles

set_option autoImplicit false

structure Cache where
  capacity : Nat
  /-- Handles of the queued entries, the earliest first. -/
  queue : List Handle := []
  arena : Arena Entry := {}
  counters : Counters := {}
  deriving Repr

namespace Cache

def ofCapacity (capacity : Nat) : Cache := { capacity }

/-! ## Look at entries -/

def entry? (c : Cache) (h : Handle) : Option Entry := c.arena.get? h

def pts? (c : Cache) (h : Handle) : Option Binary64 := (c.entry? h).map (·.pts)

def isRendered (c : Cache) (h : Handle) : Bool := (c.entry? h).any (·.isRendered)

def isQueued (c : Cache) (h : Handle) : Bool := c.queue.contains h

/-- The end of the chain of sharing that begins at an entry, within so many links. -/
def ownerWithin (c : Cache) : Nat → Handle → Option (Handle × Frame)
  | 0, _ => none
  | links + 1, h =>
    match c.entry? h with
    | some ⟨_, _, .owned frame⟩ => some (h, frame)
    | some ⟨_, _, .shared owner⟩ => c.ownerWithin links owner
    | _ => none

/-- The entry that owns what `h` shows, and its frame. A chain passes each slot at most once. -/
def ownerAndFrame? (c : Cache) (h : Handle) : Option (Handle × Frame) :=
  c.ownerWithin c.arena.slots.size h

def owner? (c : Cache) (h : Handle) : Option Handle := (c.ownerAndFrame? h).map (·.1)

/-- What an entry shows; nothing while it is pending. -/
def frame? (c : Cache) (h : Handle) : Option Frame := (c.ownerAndFrame? h).map (·.2)

def stats (c : Cache) : Stats :=
  { c.counters with queued := c.queue.length, live := c.arena.live }

/-! ## Count references -/

def put (c : Cache) (h : Handle) (e : Entry) : Cache := { c with arena := c.arena.put h e }

def addReference (c : Cache) (h : Handle) : Except Fault Cache :=
  match c.entry? h with
  | some e => .ok (c.put h { e with references := e.references + 1 })
  | none => .error (.cache .referenceToFreed)

/-- Take an entry out of the arena. -/
def free (c : Cache) (h : Handle) (e : Entry) : Cache :=
  let storages := match e.storage with
    | .owned _ => 1
    | _ => 0
  { c with
    arena := c.arena.remove h
    counters.freed := c.counters.freed + 1
    counters.storagesFreed := c.counters.storagesFreed + storages }

/-- Give one reference back. The last one frees the entry, and with it the reference that the
entry holds on the owner of what it shows. -/
def release (c : Cache) (h : Handle) : Except Fault Cache :=
  match _found : c.entry? h with
  | none => .error (.cache .releaseOfFreed)
  | some e =>
    match e.references with
    | 0 => .error (.cache .releaseOfUncounted)
    | 1 =>
      match e.storage with
      | .shared owner => (c.free h e).release owner
      | _ => .ok (c.free h e)
    | n + 2 => .ok (c.put h { e with references := n + 1 })
termination_by c.arena.live
decreasing_by exact Arena.live_remove_lt _found

/-! ## Queue and check out -/

/-- Queue a time for rendering. It has to come after the last one queued, which keeps the
queue sorted; a full queue takes nothing. -/
def request (c : Cache) (pts : Binary64) : Option Handle × Cache :=
  let isLater := c.queue.getLast?.all fun last => (c.pts? last).any fun p => decide (p < pts)
  if c.capacity ≤ c.queue.length then
    (none, { c with counters.refusedFull := c.counters.refusedFull + 1 })
  else if isLater = false then
    (none, { c with counters.refusedLate := c.counters.refusedLate + 1 })
  else
    let (h, arena) := c.arena.insert ⟨pts, 1, .pending⟩
    (some h, { c with
      queue := c.queue ++ [h]
      arena := arena
      counters.requested := c.counters.requested + 1 })

/-- Drop queued entries before `pts` from the front of `queue`. -/
def pruneFrom (c : Cache) (pts : Binary64) : List Handle → Except Fault Cache
  | [] => .ok { c with queue := [] }
  | h :: rest =>
    match c.pts? h with
    | none => .error (.cache .queuedEntryFreed)
    | some p =>
      if p < pts then do
        let c ← c.release h
        pruneFrom { c with counters.pruned := c.counters.pruned + 1 } pts rest
      else .ok { c with queue := h :: rest }

/-- Drop every queued entry before `pts`. -/
def prune (c : Cache) (pts : Binary64) : Except Fault Cache := c.pruneFrom pts c.queue

/-- Prune up to `pts` and take a reference on the entry for exactly `pts`, if it is queued. -/
def checkOut (c : Cache) (pts : Binary64) : Except Fault (Option Handle × Cache) := do
  let c ← c.prune pts
  match c.queue with
  | [] => return (none, c)
  | h :: _ =>
    if (c.pts? h).any fun p => decide (p.Same pts) then return (some h, ← c.addReference h)
    else return (none, c)

def flushFrom (c : Cache) : List Handle → Except Fault Cache
  | [] => .ok c
  | h :: rest => do
    let c ← { c with counters.flushed := c.counters.flushed + 1 }.release h
    flushFrom c rest

/-- Drop every queued entry. -/
def flush (c : Cache) : Except Fault Cache := { c with queue := [] }.flushFrom c.queue

/-! ## Publish renders -/

/-- Let an entry own the frame rendered for it. -/
def publish (c : Cache) (h : Handle) (frame : Frame) : Except Fault Cache :=
  match c.entry? h with
  | none => .error (.cache .publishOnFreed)
  | some e =>
    if e.isRendered then .error (.cache .publishedTwice)
    else .ok { c.put h { e with storage := .owned frame } with
      counters.storagesMade := c.counters.storagesMade + 1 }

/-- Let an entry show what `owner` shows. A reference that the caller holds on `owner` goes to
the entry. -/
def share (c : Cache) (h owner : Handle) : Except Fault Cache :=
  if c.isRendered owner = false then .error (.cache .sharingUnrendered)
  else
    match c.entry? h with
    | none => .error (.cache .publishOnFreed)
    | some e =>
      if e.isRendered then .error (.cache .publishedTwice)
      else .ok { c.put h { e with storage := .shared owner } with
        counters.shared := c.counters.shared + 1 }

end Cache
end Subtitles
