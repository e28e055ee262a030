/-
Where packets come from.

A source holds what has arrived and was not taken yet. While somebody may still send, an
empty source means "wait"; otherwise it is the end of the stream. An arrival is a packet, a
stall, a failed read or an end that more may follow. All but a packet answer one `poll` each;
`next` passes over stalls and failures, and an end answers it too.
-/
import Subtitles.Packet
namespace Subtitles

set_option autoImplicit false

inductive Arrival
  | packet (p : Packet)
  | stall
  | failure
  /-- The stream ends for now. -/
  | ending
  deriving DecidableEq, Repr

/-- A read that waits does not notice it. -/
def Arrival.passes : Arrival → Bool
  | .stall | .failure => true
  | .packet _ | .ending => false

structure Source where
  arrivals : List Arrival := []
  senders : Nat := 0
  deriving DecidableEq, Repr, Inhabited

/-- The answer of a read that does not wait. -/
inductive Poll
  | packet (p : Packet)
  | wait
  | failed
  | ended
  deriving DecidableEq, Repr

/-- The answer of a read that waits for a packet; `blocked` where none can come before
somebody sends. -/
inductive Next
  | packet (p : Packet)
  | blocked
  | ended
  deriving DecidableEq, Repr

namespace Source

def ofPackets (ps : List Packet) : Source := ⟨ps.map .packet, 0⟩

/-- A source that one sender feeds. -/
def connected : Source := ⟨[], 1⟩

def isOpen (s : Source) : Bool := s.senders != 0

def push (s : Source) (p : Packet) : Source := { s with arrivals := s.arrivals ++ [.packet p] }

/-- Sending takes a sender; nothing happens without one. -/
def send? (s : Source) (p : Packet) : Option Source := if s.isOpen then some (s.push p) else none

/-- A sender begets another one. -/
def cloneSender (s : Source) : Source := if s.isOpen then { s with senders := s.senders + 1 } else s

def closeSender (s : Source) : Source := { s with senders := s.senders - 1 }

def remaining (s : Source) : Nat := s.arrivals.length

def poll (s : Source) : Poll × Source :=
  match s.arrivals with
  | [] => (if s.isOpen then .wait else .ended, s)
  | .packet p :: rest => (.packet p, { s with arrivals := rest })
  | .stall :: rest => (.wait, { s with arrivals := rest })
  | .failure :: rest => (.failed, { s with arrivals := rest })
  | .ending :: rest => (.ended, { s with arrivals := rest })

def next (s : Source) : Next × Source :=
  match s.arrivals.dropWhile Arrival.passes with
  | .packet p :: rest => (.packet p, { s with arrivals := rest })
  | _ :: rest => (.ended, { s with arrivals := rest })
  | [] => (if s.isOpen then .blocked else .ended, { s with arrivals := [] })

/-- The packets among arrivals, in order. -/
def packetsOf (arrivals : List Arrival) : List Packet :=
  arrivals.filterMap fun
    | .packet p => some p
    | _ => none

/-- Every packet still to come, in order. -/
def packets (s : Source) : List Packet := packetsOf s.arrivals

/-- The packets up to the next end, as reads that wait give them. -/
def untilEnd (s : Source) : List Packet := packetsOf (s.arrivals.takeWhile (· ≠ .ending))

/-- What is left behind the next end. -/
def pastEnd (s : Source) : Source :=
  { s with arrivals := (s.arrivals.dropWhile (· ≠ .ending)).tail }

theorem arrivals_poll_packet {s t : Source} {p : Packet} (h : s.poll = (.packet p, t)) :
    s.arrivals = .packet p :: t.arrivals := by
  unfold poll at h
  split at h
  · split at h <;> simp at h
  · next arrived =>
    simp only [Prod.mk.injEq, Poll.packet.injEq] at h
    rw [arrived, h.1, ← h.2]
  · simp at h
  · simp at h
  · simp at h

theorem remaining_poll_packet {s t : Source} {p : Packet} (h : s.poll = (.packet p, t)) :
    t.remaining < s.remaining := by
  simp [remaining, arrivals_poll_packet h]

end Source
end Subtitles
