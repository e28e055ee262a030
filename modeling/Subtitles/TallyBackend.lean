/-
# TallyBackend: a backend that shows how much it has decoded

Its frames are one pixel whose coverage is the number of packets decoded. It makes visible
which packets reached a backend before which render, and in which order it was called. With a
room it pushes back once it holds that many packets; rendering makes room again.
-/
import Subtitles.Backend
namespace Subtitles

set_option autoImplicit false

structure TallyBackend where
  /-- How many packets it holds before it pushes back, if it does. -/
  room : Option Nat := none
  /-- Every render counts as a change. -/
  alwaysChanges : Bool := false
  decoded : Nat := 0
  held : Nat := 0
  last : Option (Nat × Geometry) := none
  changes : Nat := 0
  deriving Repr

namespace TallyBackend

def init (codec : Codec) (b : TallyBackend) : Except SubtitleError Unit × TallyBackend :=
  if codec.name = "mock" then (.ok (), b)
  else (.error (.backend "mock only handles the mock codec"), b)

def dot (decoded : Nat) : Part :=
  ⟨0, 0, 1, 1, 1, 1, 1, .white, #[UInt8.ofNat decoded]⟩

def render (g : Geometry) (b : TallyBackend) : Frame × TallyBackend :=
  let unchanged := !b.alwaysChanges &&
    b.last.any fun l => decide (l.1 = b.decoded ∧ l.2.Same g)
  let changes := if unchanged then b.changes else b.changes + 1
  (⟨.alpha8, [dot b.decoded], if unchanged then 0 else changes⟩,
    { b with held := 0, last := some (b.decoded, g), changes })

def control (c : Command) (b : TallyBackend) : Reply × TallyBackend :=
  match c with
  | .step .. => (.delta .one, b)
  | .frameRate _ => (.unknown, b)
  | .video _ | .top _ => (.done, b)

instance : Backend TallyBackend where
  name _ := "mock"
  init := init
  decode _ b := { b with decoded := b.decoded + 1, held := b.held + 1 }
  render g _ b := let (frame, b) := b.render g; (.ok frame, b)
  text _ b := (some s!"{b.decoded} packets", b)
  accepts b := b.room.map fun room => decide (b.held < room)
  reset b := { b with held := 0, last := none }
  control := control

end TallyBackend
end Subtitles
