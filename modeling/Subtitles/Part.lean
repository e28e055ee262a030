/-
# Parts: positioned bitmaps

A part is a block of coverage bytes with a colour, a place on the output and a size to be
shown at. Its rows lie `stride` bytes apart, whatever its width says, and the bitmap may be of
any length: `row` gives what there is of a row. `ofCoverage?` makes the ordinary kind of part,
tightly packed and shown at its own size.

A slice is refused where its ends are out of order or out of the data. A row never is
(`isSome_row?`), since both ends of it are moved into the bitmap first.
-/
import Subtitles.Fault
import Subtitles.Packet
import Subtitles.Binary64.Integer
namespace Subtitles

set_option autoImplicit false

/-- A colour with straight alpha. -/
structure Color where
  red : UInt8
  green : UInt8
  blue : UInt8
  alpha : UInt8
  deriving DecidableEq, Repr, Inhabited

def Color.white : Color := ⟨255, 255, 255, 255⟩

structure Part where
  x : Int32
  y : Int32
  width : UInt32
  height : UInt32
  displayWidth : UInt32
  displayHeight : UInt32
  /-- Bytes from the start of one row to the start of the next. -/
  stride : UInt64
  color : Color
  bitmap : Bytes
  deriving DecidableEq, Repr, Inhabited

/-- A rectangle of the output, its right and bottom edges excluded. -/
structure Rect where
  left : Binary64
  top : Binary64
  right : Binary64
  bottom : Binary64
  deriving DecidableEq, Repr

def Rect.union (r s : Rect) : Rect :=
  ⟨r.left.minimum s.left, r.top.minimum s.top, r.right.maximum s.right, r.bottom.maximum s.bottom⟩

/-- Lengths and offsets in memory stop at this one. -/
def maxLength : Nat := 0xffffffffffffffff

/-- The bytes from one offset up to another, if these are in order and the data reaches so far. -/
def Bytes.slice? (data : Bytes) (start stop : Nat) : Option Bytes :=
  if start ≤ stop ∧ stop ≤ data.size then some (data.extract start stop) else none

namespace Part

/-- A part shown at its own size, from tightly packed coverage. -/
def ofCoverage? (x y : Int32) (width height : UInt32) (color : Color) (coverage : Bytes) :
    Except SubtitleError Part :=
  let expected := min (width.toNat * height.toNat) maxLength
  if coverage.size = expected then
    .ok {
      x, y, width, height, color
      displayWidth := width
      displayHeight := height
      stride := width.toUInt64
      bitmap := coverage }
  else
    .error (.validation s!"alpha bitmap {width.toNat}x{height.toNat} needs {expected} bytes, got {coverage.size}")

def shownAt (p : Part) (width height : UInt32) : Part :=
  { p with displayWidth := width, displayHeight := height }

/-- Row `y` as a slice of the bitmap. -/
def row? (p : Part) (y : UInt32) : Option Bytes :=
  let start := min (y.toNat * p.stride.toNat) maxLength
  let stop := min (min (start + p.stride.toNat) maxLength) p.bitmap.size
  p.bitmap.slice? (min start stop) stop

theorem isSome_row? (p : Part) (y : UInt32) : (p.row? y).isSome := by
  rw [row?, Bytes.slice?, if_pos ⟨Nat.min_le_right _ _, Nat.min_le_right _ _⟩]
  rfl

/-- The bytes of row `y`, as far as the bitmap reaches. -/
def row (p : Part) (y : UInt32) : Bytes := (p.row? y).get (p.isSome_row? y)

def bounds (p : Part) : Rect :=
  let x := Binary64.ofInt p.x.toInt
  let y := Binary64.ofInt p.y.toInt
  ⟨x, y, x + .ofNat p.displayWidth.toNat, y + .ofNat p.displayHeight.toNat⟩

/-- There are no pixels to take or none to show. -/
def isVoid (p : Part) : Bool :=
  p.width == 0 || p.height == 0 || p.displayWidth == 0 || p.displayHeight == 0

end Part
end Subtitles
