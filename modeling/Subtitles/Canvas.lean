/-
# Compositing

A canvas is a field of premultiplied pixels, row by row. Painting a part walks over its display
pixels, passes over those that fall beside the canvas, takes for each other the nearest coverage
byte of the bitmap, tints it and blends it over what is there. A write behind the end of the canvas
is a fault, like any slice out of range. `Frame.composite` paints the parts of a frame in order over
a transparent canvas.
-/
import Subtitles.Frame
namespace Subtitles

set_option autoImplicit false

/-- A pixel whose colour channels are already multiplied by its alpha. -/
structure Pixel where
  red : UInt8
  green : UInt8
  blue : UInt8
  alpha : UInt8
  deriving DecidableEq, Repr, Inhabited

/-- `a * b / 255`, rounded to the nearest. -/
def scaled255 (a b : UInt8) : UInt8 := UInt8.ofNat ((a.toNat * b.toNat + 127) / 255)

/-- A sum of two bytes that stops at 255. -/
def addClamped (a b : UInt8) : UInt8 := UInt8.ofNat (min 255 (a.toNat + b.toNat))

namespace Pixel

def transparent : Pixel := ⟨0, 0, 0, 0⟩

/-- A colour under a coverage. -/
def tint (color : Color) (coverage : UInt8) : Pixel :=
  let alpha := scaled255 color.alpha coverage
  ⟨scaled255 color.red alpha, scaled255 color.green alpha, scaled255 color.blue alpha, alpha⟩

/-- What is there, seen through what is put over it. -/
def blend (above below : Pixel) : Pixel :=
  let through := 255 - above.alpha
  ⟨addClamped above.red (scaled255 below.red through),
    addClamped above.green (scaled255 below.green through),
    addClamped above.blue (scaled255 below.blue through),
    addClamped above.alpha (scaled255 below.alpha through)⟩

def bytes (p : Pixel) : List UInt8 := [p.red, p.green, p.blue, p.alpha]

end Pixel

/-- A field of pixels, row by row. -/
structure Canvas (width height : Nat) where
  pixels : Array Pixel
  size_pixels : pixels.size = width * height
  deriving DecidableEq, Repr

namespace Canvas

variable {width height : Nat}

def transparent (width height : Nat) : Canvas width height where
  pixels := Array.replicate (width * height) .transparent
  size_pixels := Array.size_replicate

/-- Blend a pixel over the one at `index`. Nothing can be written behind the end of the canvas. -/
def blendAt (c : Canvas width height) (index : Nat) (above : Pixel) : Except Fault (Canvas width height) :=
  if index < c.pixels.size then
    .ok { pixels := c.pixels.modify index above.blend, size_pixels := Array.size_modify.trans c.size_pixels }
  else .error (.outOfRange (4 * index + 4) (4 * c.pixels.size))

/-- Paint the display pixel in column `dx` of a part into row `Y`. It is passed over if it falls beside the
canvas, or if the row has no coverage for it. -/
def paintPixel (p : Part) (row : Bytes) (Y dx : Nat) (c : Canvas width height) :
    Except Fault (Canvas width height) :=
  let X := p.x.toInt + dx
  if X < 0 ∨ width ≤ X then .ok c
  else match row[dx * p.width.toNat / p.displayWidth.toNat]? with
    | some coverage => c.blendAt (Y * width + X.toNat) (.tint p.color coverage)
    | none => .ok c

/-- Paint `count` display pixels of one row, from column `dx` on. -/
def paintColumns (p : Part) (row : Bytes) (Y dx : Nat) :
    Nat → Canvas width height → Except Fault (Canvas width height)
  | 0, c => .ok c
  | count + 1, c => c.paintPixel p row Y dx >>= paintColumns p row Y (dx + 1) count

/-- Paint the display row `dy` of a part. It is passed over if it falls above or below the canvas. -/
def paintRow (p : Part) (dy : Nat) (c : Canvas width height) : Except Fault (Canvas width height) :=
  let Y := p.y.toInt + dy
  if Y < 0 ∨ height ≤ Y then .ok c
  else
    let row := p.row (UInt32.ofNat (dy * p.height.toNat / p.displayHeight.toNat))
    paintColumns p row Y.toNat 0 p.displayWidth.toNat c

/-- Paint `count` display rows, from row `dy` on. -/
def paintRows (p : Part) (dy : Nat) : Nat → Canvas width height → Except Fault (Canvas width height)
  | 0, c => .ok c
  | count + 1, c => c.paintRow p dy >>= paintRows p (dy + 1) count

def paint (c : Canvas width height) (p : Part) : Except Fault (Canvas width height) :=
  if p.isVoid then .ok c else paintRows p 0 p.displayHeight.toNat c

/-- Four bytes a pixel: red, green, blue, alpha. -/
def bytes (c : Canvas width height) : Bytes :=
  c.pixels.foldl
    (fun out p => (((out.push p.red).push p.green).push p.blue).push p.alpha) #[]

end Canvas

/-- The number of bytes of a canvas, if memory can hold them. -/
def canvasBytes (width height : UInt32) : Except Fault Nat :=
  let n := width.toNat * height.toNat * 4
  if maxLength < n then .error (.overflow .multiply)
  else if 0x8000000000000000 ≤ n then .error .capacity
  else .ok n

namespace Frame

/-- The frame over a transparent canvas. -/
def onCanvas (f : Frame) (width height : Nat) : Except Fault (Canvas width height) :=
  if f.isEmpty then .ok (.transparent width height)
  else f.parts.foldlM Canvas.paint (.transparent width height)

def composite (f : Frame) (width height : UInt32) : Except Fault Bytes := do
  let _ ← canvasBytes width height
  let c ← f.onCanvas width.toNat height.toNat
  return c.bytes

end Frame
end Subtitles
