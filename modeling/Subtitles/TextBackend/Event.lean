/-
# TextBackend.Event: the events of a text stream

Events are kept in the order of their starts, equal starts in the order of arrival. An event
lasts until its stop; one without a stop lasts until a later event starts. An event that
repeats the start and the text of one already there is dropped, since streams are sent again
after a seek.
-/
import Subtitles.Bisect
import Subtitles.Packet
import Subtitles.Text.Blank
namespace Subtitles

set_option autoImplicit false

structure Event where
  id : Nat
  start : Binary64
  stop : Option Binary64
  text : String
  deriving DecidableEq, Repr

namespace Event

/-- The text of a packet as it is kept: line feeds alone end lines, and no blanks end the text. -/
def normalise (text : String) : String :=
  String.ofList (Text.trimEnd (Text.unifyLineEnds text.toList))

/-- When an event ends, given the events that come after it in order. -/
def visibleUntil (e : Event) (later : List Event) : Option Binary64 :=
  match e.stop with
  | some stop => some stop
  | none => (later.find? fun f => decide (e.start < f.start)).map (·.start)

/-- The events visible at a time, in order. -/
def visibleAt (pts : Binary64) : List Event → List Event
  | [] => []
  | e :: later =>
    if e.start ≤ pts ∧ (e.visibleUntil later).all (fun stop => decide (pts < stop)) then
      e :: visibleAt pts later
    else visibleAt pts later

/-- Insert an event behind all that start no later. -/
def insert (e : Event) (es : List Event) : List Event :=
  es.insertIdx (bisect (fun f => decide (f.start ≤ e.start)) es) e

def isRepeated (start : Binary64) (text : String) (es : List Event) : Bool :=
  es.any fun e => decide (e.start.Same start) && e.text == text

/-! ## Steps between events -/

/-- The times of a list, each dropped that is the same as the one kept before it. -/
def distinctAfter (kept : Binary64) : List Binary64 → List Binary64
  | [] => []
  | t :: ts => if t.Same kept then distinctAfter kept ts else t :: distinctAfter t ts

def distinct : List Binary64 → List Binary64
  | [] => []
  | t :: ts => t :: distinctAfter t ts

/-- Starts nearer than a millionth of a second to the reference time do not count as a step. -/
def stepSlack : Binary64 := ⟨0x3eb0c6f7a0b5ed8d⟩

/-- The start of the event so many steps after or before a time. -/
def stepFrom (es : List Event) (pts : Binary64) (movement : Int32) : Option Binary64 :=
  let starts := distinct (es.map (·.start))
  let n := movement.toInt
  if 0 < n then (starts.filter fun t => decide (pts + stepSlack < t))[n.toNat - 1]?
  else if n < 0 then (starts.reverse.filter fun t => decide (t < pts - stepSlack))[(-n).toNat - 1]?
  else none

end Event
end Subtitles
