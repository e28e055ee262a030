/-
# Options of a stream
-/
import Subtitles.Fault
import Subtitles.Part
namespace Subtitles

set_option autoImplicit false

structure Options where
  /-- How many frames to render ahead of playback; none means no worker. -/
  renderAhead : UInt64 := 0
  /-- Whether subtitles are shown; the text of hidden ones cannot be asked for. -/
  visible : Bool := true
  deriving DecidableEq, Repr

namespace Options

def mostAhead : Nat := 500

/-- Places in the cache beyond the frames to render ahead. -/
def spareEntries : Nat := 10

def check (o : Options) : Except SubtitleError Unit :=
  if mostAhead < o.renderAhead.toNat then
    .error (.validation s!"render_ahead must be <= {mostAhead}, got {o.renderAhead.toNat}")
  else .ok ()

/-- The places in the cache. The sum may leave 64 bits before the options are checked. -/
def capacity (o : Options) : Except Fault Nat :=
  let n := o.renderAhead.toNat + spareEntries
  if n ≤ maxLength then .ok n else .error (.overflow .add)

end Options
end Subtitles
