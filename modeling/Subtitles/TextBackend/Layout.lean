/-
# TextBackend.Layout: lines of text as blocks

Every line becomes one part, a row of equal cells, and every visible character fills the
inside of its cell. The height of a line is an eighteenth of the video's, the width of a cell
three fifths of that. The block of lines stands at the bottom of the output, or at the top,
half a line away from the margin; each line is centred.

Lengths are 32-bit and positions 64-bit words. A result outside its word is a fault.
-/
import Subtitles.Frame
import Subtitles.Geometry
import Subtitles.Text.Blank
namespace Subtitles

set_option autoImplicit false

/-- A product within 32 bits. -/
def mulLength (a b : Nat) : Except Fault Nat :=
  if a * b < 0x100000000 then .ok (a * b) else .error (.overflow .multiply)

def isPosition (i : Int) : Bool := decide (-0x8000000000000000 ≤ i ∧ i < 0x8000000000000000)

/-- The result of an operation, within 64 signed bits. -/
def position (op : Operation) (i : Int) : Except Fault Int :=
  if isPosition i then .ok i else .error (.overflow op)

def addPosition (a b : Int) : Except Fault Int := position .add (a + b)

def subPosition (a b : Int) : Except Fault Int := position .subtract (a - b)

def mulPosition (a b : Int) : Except Fault Int := position .multiply (a * b)

namespace TextLayout

/-- Lines in the height of the video. -/
def linesPerHeight : Nat := 18

/-- The width of a cell over its height, 0.6. -/
def cellAspect : Binary64 := ⟨0x3fe3333333333333⟩

/-- The height of a line, at least two pixels. -/
def lineHeight (g : Geometry) : Nat := max (g.areaHeight.toNat / linesPerHeight) 2

/-- The width of a cell, at least one pixel. -/
def cellWidth (g : Geometry) : Nat :=
  max (Binary64.rounded (.ofNat (lineHeight g) * cellAspect)).toUInt32.toNat 1

/-- The most characters of a line that fit, one at least. -/
def lineCapacity (g : Geometry) : Nat := max (g.width.toNat / cellWidth g) 1

/-- One pixel row of a cell. The outermost pixels stay clear, so that cells stand apart. -/
def cellRow (width : Nat) (visible : Bool) : Bytes :=
  Array.ofFn fun i : Fin width =>
    if visible && decide (1 ≤ i.val ∧ i.val + 1 < width) then 255 else 0

/-- One pixel row through the characters of a line. -/
def inkRow (cell : Nat) (chars : List Char) : Bytes :=
  chars.foldl (fun row c => row ++ cellRow cell (!Text.isBlank c)) #[]

/-- So many copies of a row below one another. -/
def stacked (rows : Nat) (row : Bytes) : Bytes := (Array.replicate rows row).flatten

/-- The coverage of a line: clear above and below by a sixth of its height. -/
def lineCoverage (height cell : Nat) (chars : List Char) : Bytes :=
  let pad := height / 6
  let clear := stacked pad (Array.replicate (cell * chars.length) 0)
  clear ++ stacked (height - 2 * pad) (inkRow cell chars) ++ clear

/-- The top edge of the block of lines. -/
def blockTop (g : Geometry) (atTop : Bool) (blockHeight : Nat) : Except Fault Int :=
  let half : Int := (lineHeight g / 2 : Nat)
  if atTop then addPosition g.margins.top.atLeastZero.toInt64Value half
  else do
    let y ← subPosition g.height.toNat g.margins.bottom.atLeastZero.toInt64Value
    let y ← subPosition y half
    subPosition y blockHeight

/-- The part of one line, if any of its characters is drawn. -/
def linePart (g : Geometry) (color : Color) (top : Int) (row : Nat) (line : List Char) :
    Except Fault (Option Part) := do
  let height := lineHeight g
  let chars := line.take (lineCapacity g)
  let width ← mulLength (cellWidth g) chars.length
  if width = 0 then return none
  let _ ← mulLength width height
  let offset ← mulPosition height row
  let y ← addPosition top offset
  return some {
    x := Int32.ofInt (((g.width.toNat : Int) - width).tdiv 2)
    y := Int32.ofInt y
    width := UInt32.ofNat width
    height := UInt32.ofNat height
    displayWidth := UInt32.ofNat width
    displayHeight := UInt32.ofNat height
    stride := UInt64.ofNat width
    color
    bitmap := lineCoverage height (cellWidth g) chars }

/-- The parts of the lines from number `row` on. -/
def partsFrom (g : Geometry) (color : Color) (top : Int) (row : Nat) :
    List (List Char) → Except Fault (List Part)
  | [] => .ok []
  | line :: rest => do
    let part ← linePart g color top row line
    let parts ← partsFrom g color top (row + 1) rest
    return part.toList ++ parts

/-- One part for each line, in order. The block takes the number of lines as a 32-bit word. -/
def parts (g : Geometry) (atTop : Bool) (color : Color) (lines : List (List Char)) :
    Except Fault (List Part) := do
  let blockHeight ← mulLength (lineHeight g) (UInt32.ofNat lines.length).toNat
  let top ← blockTop g atTop blockHeight
  partsFrom g color top 0 lines

end TextLayout
end Subtitles
