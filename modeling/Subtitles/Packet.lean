/-
Subtitle packets and the codecs they are written in.
-/
import Subtitles.Binary64.Arithmetic
namespace Subtitles

set_option autoImplicit false

abbrev Bytes := Array UInt8

/-- One compressed subtitle. Times are seconds on the presentation clock; a packet without a
timestamp is legal, and each backend decides whether it can use it. -/
structure Packet where
  pts : Option Binary64
  duration : Option Binary64 := none
  data : Bytes := #[]
  deriving DecidableEq, Repr, Inhabited

/-- The end of the display interval, where both its start and its length are known. -/
def Packet.endTime (p : Packet) : Option Binary64 := do
  return (← p.pts) + (← p.duration)

def Packet.ofText (pts duration : Option Binary64) (text : String) : Packet :=
  ⟨pts, duration, text.toUTF8.data⟩

/-- The kind of a subtitle stream: a name and whatever its decoder needs to start. -/
structure Codec where
  name : String
  extradata : Bytes := #[]
  deriving DecidableEq, Repr, Inhabited

end Subtitles
