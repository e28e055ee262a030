/-
# PictureBackend.Payload: pictures as bytes

A picture packet holds the place and the size as four 16-bit words, the colour as a 32-bit
word `0xRRGGBBAA`, all with their low byte first, and then the coverage. An empty packet
clears the screen.
-/
import Subtitles.Part
namespace Subtitles

set_option autoImplicit false

/-- A picture as a stream carries it. Nothing ties the coverage to the size. -/
structure Picture where
  x : UInt16
  y : UInt16
  width : UInt16
  height : UInt16
  color : Color := .white
  coverage : Bytes
  deriving DecidableEq, Repr

namespace Picture

def headerLength : Nat := 12

/-- The low byte of a word and then its high one. -/
def wordBytes (v : UInt16) : Bytes := #[v.toUInt8, (v >>> 8).toUInt8]

def wordOf (low high : UInt8) : UInt16 := low.toUInt16 ||| (high.toUInt16 <<< 8)

def payload (p : Picture) : Bytes :=
  wordBytes p.x ++ wordBytes p.y ++ wordBytes p.width ++ wordBytes p.height ++
    #[p.color.alpha, p.color.blue, p.color.green, p.color.red] ++ p.coverage

/-- The part of a payload, none where it clears the screen. -/
def parse (data : Bytes) : Except SubtitleError (Option Part) :=
  if data.isEmpty then .ok none
  else if data.size < headerLength then
    .error (.decode s!"picture packet of {data.size} bytes is shorter than its header")
  else
    let at_ (i : Nat) : UInt8 := data.getD i 0
    let word (i : Nat) : UInt16 := wordOf (at_ (2 * i)) (at_ (2 * i + 1))
    let fit (v : UInt16) : Int32 := Int32.ofNat v.toNat
    match Part.ofCoverage? (fit (word 0)) (fit (word 1)) (word 2).toUInt32 (word 3).toUInt32
        ⟨at_ 11, at_ 10, at_ 9, at_ 8⟩ (data.extract headerLength data.size) with
    | .ok part => .ok (some part)
    | .error e => .error (.decode e.message)

end Picture
end Subtitles
