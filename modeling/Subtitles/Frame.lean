/-
# Frames

A frame is a list of parts in drawing order and a change number. A backend gives the number 0
to a frame that shows what the frame before it showed, and another number to any other.
-/
import Subtitles.Part
namespace Subtitles

set_option autoImplicit false

inductive PixelFormat
  | empty
  | alpha8
  deriving DecidableEq, Repr, Inhabited

def PixelFormat.name : PixelFormat → String
  | .empty => "Empty"
  | .alpha8 => "Alpha8"

structure Frame where
  format : PixelFormat
  parts : List Part
  changeId : Nat
  deriving DecidableEq, Repr, Inhabited

namespace Frame

def blank (changeId : Nat) : Frame := ⟨.empty, [], changeId⟩

/-- There is nothing to draw. -/
def isEmpty (f : Frame) : Bool := f.format == .empty || f.parts.isEmpty

/-- The backend saw no change since its previous frame. -/
def isUnchanged (f : Frame) : Bool := f.changeId == 0

def byteCount (f : Frame) : Nat := f.parts.foldl (fun n p => n + p.bitmap.size) 0

/-- The least rectangle around the parts, if there are any. -/
def bounds : Frame → Option Rect
  | ⟨_, [], _⟩ => none
  | ⟨_, p :: ps, _⟩ => some (ps.foldl (fun r q => r.union q.bounds) p.bounds)

/-- The same picture, whatever the change numbers say. -/
def SameContent (f g : Frame) : Prop := f.format = g.format ∧ f.parts = g.parts

end Frame
end Subtitles
