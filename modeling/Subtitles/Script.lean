/-
# Script: a subtitle stream written down

A script is a JSON object: the codec with its extradata, the parameters of the video if they
are known, and the packets in the order in which they arrive. A packet carries a text or a
picture whose coverage is full; the text goes first, and one with neither is empty. All records
of a script are closed, so that a misspelt field does not pass.
-/
import Subtitles.Json.Forms
import Subtitles.PictureBackend.Payload
namespace Subtitles

set_option autoImplicit false

structure Script where
  codec : Codec
  video : Option VideoFormat := none
  packets : List Packet
  deriving DecidableEq, Repr

/-- The end of the subtitle that ends last; one without a duration ends as it begins. -/
def Script.endTime (s : Script) : Binary64 :=
  s.packets.foldl
    (fun latest p =>
      match p.pts with
      | some pts => latest.maximum (pts + p.duration.getD .zero)
      | none => latest)
    .zero

/-- The picture with all its pixels covered. -/
def Picture.filled (p : Picture) : Picture :=
  { p with coverage := Array.replicate (p.width.toNat * p.height.toNat) 255 }

namespace Json

open Reader

structure PictureDraft where
  x : Option UInt16 := none
  y : Option UInt16 := none
  width : Option UInt16 := none
  height : Option UInt16 := none
  color : Color := .white

def readColor : Reader Color := do
  match ← tuple byte 4 with
  | [r, g, b, a] => return ⟨r, g, b, a⟩
  | _ => fail .unsuited

/-- A picture still without its coverage. -/
def readPicture : Reader Picture :=
  record
    [⟨"x", do let v ← word16; return fun d => { d with x := some v }⟩,
      ⟨"y", do let v ← word16; return fun d => { d with y := some v }⟩,
      ⟨"w", do let v ← word16; return fun d => { d with width := some v }⟩,
      ⟨"h", do let v ← word16; return fun d => { d with height := some v }⟩,
      ⟨"color", do let v ← readColor; return fun d => { d with color := v }⟩]
    true ({} : PictureDraft)
    fun _ d => return ⟨← d.x, ← d.y, ← d.width, ← d.height, d.color, #[]⟩

structure ScriptPacketDraft where
  pts : Option (Option Binary64) := none
  duration : Option Binary64 := none
  text : Option String := none
  picture : Option Picture := none

def scriptData (text : Option String) (picture : Option Picture) : Bytes :=
  match text, picture with
  | some text, _ => text.toUTF8.data
  | none, some picture => picture.filled.payload
  | none, none => #[]

/-- A packet of a script. Given by position it has to say its timestamp, if only as `null`. -/
def readScriptPacket : Reader Packet :=
  record
    [⟨"pts", do let v ← optional double; return fun d => { d with pts := some v }⟩,
      ⟨"duration", do let v ← optional double; return fun d => { d with duration := v }⟩,
      ⟨"text", do let v ← optional string; return fun d => { d with text := v }⟩,
      ⟨"picture", do let v ← optional readPicture; return fun d => { d with picture := v }⟩]
    true ({} : ScriptPacketDraft)
    fun byPosition d =>
      if byPosition && d.pts.isNone then none
      else some ⟨d.pts.getD none, d.duration, scriptData d.text d.picture⟩

structure ScriptDraft where
  codec : Option String := none
  extradata : Option String := none
  video : Option VideoFormat := none
  packets : Option (List Packet) := none

def readScript : Reader Script :=
  record
    [⟨"codec", do let v ← string; return fun d => { d with codec := some v }⟩,
      ⟨"extradata", do let v ← optional string; return fun d => { d with extradata := v }⟩,
      ⟨"video", do let v ← optional readVideo; return fun d => { d with video := v }⟩,
      ⟨"packets", do let v ← array readScriptPacket; return fun d => { d with packets := some v }⟩]
    true ({} : ScriptDraft)
    fun _ d => do
      let codec : Codec := ⟨← d.codec, (d.extradata.getD "").toUTF8.data⟩
      return ⟨codec, d.video, ← d.packets⟩

end Json

def Script.ofText? (text : String) : Option Script := (Json.readScript.all text).toOption

end Subtitles
