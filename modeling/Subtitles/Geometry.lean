/-
Output geometry and video parameters.

A frame is rendered for one geometry, so frames rendered for another are worth nothing. Two
geometries count as the same when all their numbers are; one with a margin that is no number
is not even the same as itself.
-/
import Subtitles.Binary64.Integer
namespace Subtitles

set_option autoImplicit false

/-- Black borders around the video in output pixels, where subtitles may still be placed. -/
structure Margins where
  left : Binary64 := .zero
  top : Binary64 := .zero
  right : Binary64 := .zero
  bottom : Binary64 := .zero
  deriving DecidableEq, Repr, Inhabited

structure Geometry where
  width : UInt32
  height : UInt32
  margins : Margins := {}
  /-- Width of a display pixel over its height. -/
  displayAspect : Binary64 := .one
  deriving DecidableEq, Repr

namespace Margins

def Same (m n : Margins) : Prop :=
  m.left.Same n.left ∧ m.top.Same n.top ∧ m.right.Same n.right ∧ m.bottom.Same n.bottom

instance (m n : Margins) : Decidable (m.Same n) :=
  inferInstanceAs (Decidable (_ ∧ _ ∧ _ ∧ _))

end Margins

namespace Geometry

/-- The geometry before any output is known. -/
def unset : Geometry := { width := 0, height := 0 }

def Same (g h : Geometry) : Prop :=
  g.width = h.width ∧ g.height = h.height ∧ g.margins.Same h.margins ∧
    g.displayAspect.Same h.displayAspect

instance (g h : Geometry) : Decidable (g.Same h) :=
  inferInstanceAs (Decidable (_ ∧ _ ∧ _ ∧ _))

/-- Nothing can be rendered. -/
def isVoid (g : Geometry) : Bool := g.width == 0 || g.height == 0

/-- The height of the video area: the output without its top and bottom margins, at least one
pixel. -/
def areaHeight (g : Geometry) : UInt32 :=
  let h := .ofNat g.height.toNat - g.margins.top.atLeastZero - g.margins.bottom.atLeastZero
  (Binary64.maximum h .one).toUInt32

end Geometry

/-- Size and pixel aspect of the video the subtitles are shown over. -/
structure VideoFormat where
  width : UInt32
  height : UInt32
  aspectNum : UInt32 := 1
  aspectDen : UInt32 := 1
  deriving DecidableEq, Repr, Inhabited

end Subtitles
