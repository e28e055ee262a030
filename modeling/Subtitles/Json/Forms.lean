/-
# Json.Forms: the library's data as JSON

Packets, codecs, geometries, video parameters, bitmap formats and options, read and written.
A field that may be missing takes its default. Options are the only closed record: they are
written by hand, and a misspelt field should not pass.
-/
import Subtitles.Frame
import Subtitles.Geometry
import Subtitles.Json.Record
import Subtitles.Json.Writer
import Subtitles.Options
namespace Subtitles.Json

set_option autoImplicit false

open Reader

def readBytes : Reader Bytes := List.toArray <$> array byte

/-! ## Packets and codecs -/

structure PacketDraft where
  pts : Option (Option Binary64) := none
  duration : Option Binary64 := none
  data : Bytes := #[]

/-- A packet given by position has to say its timestamp, if only as `null`. -/
def readPacket : Reader Packet :=
  record
    [⟨"pts", do let v ← optional double; return fun d => { d with pts := some v }⟩,
      ⟨"duration", do let v ← optional double; return fun d => { d with duration := v }⟩,
      ⟨"data", do let v ← readBytes; return fun d => { d with data := v }⟩]
    false ({} : PacketDraft)
    fun byPosition d =>
      if byPosition && d.pts.isNone then none else some ⟨d.pts.getD none, d.duration, d.data⟩

def writePacket (p : Packet) : String :=
  Write.object
    [("pts", Write.optional Write.double p.pts),
      ("duration", Write.optional Write.double p.duration), ("data", Write.bytes p.data)]

structure CodecDraft where
  name : Option String := none
  extradata : Bytes := #[]

def readCodec : Reader Codec :=
  record
    [⟨"name", do let v ← string; return fun d => { d with name := some v }⟩,
      ⟨"extradata", do let v ← readBytes; return fun d => { d with extradata := v }⟩]
    false ({} : CodecDraft) fun _ d => d.name.map (⟨·, d.extradata⟩)

def writeCodec (c : Codec) : String :=
  Write.object [("name", Write.string c.name), ("extradata", Write.bytes c.extradata)]

/-! ## Geometry -/

structure MarginsDraft where
  left : Option Binary64 := none
  top : Option Binary64 := none
  right : Option Binary64 := none
  bottom : Option Binary64 := none

def readMargins : Reader Margins :=
  record
    [⟨"x0", do let v ← double; return fun d => { d with left := some v }⟩,
      ⟨"y0", do let v ← double; return fun d => { d with top := some v }⟩,
      ⟨"x1", do let v ← double; return fun d => { d with right := some v }⟩,
      ⟨"y1", do let v ← double; return fun d => { d with bottom := some v }⟩]
    false ({} : MarginsDraft)
    fun _ d => return ⟨← d.left, ← d.top, ← d.right, ← d.bottom⟩

def writeMargins (m : Margins) : String :=
  Write.object
    [("x0", Write.double m.left), ("y0", Write.double m.top), ("x1", Write.double m.right),
      ("y1", Write.double m.bottom)]

structure GeometryDraft where
  width : Option UInt32 := none
  height : Option UInt32 := none
  margins : Margins := {}
  displayAspect : Binary64 := .one

def readGeometry : Reader Geometry :=
  record
    [⟨"w", do let v ← word32; return fun d => { d with width := some v }⟩,
      ⟨"h", do let v ← word32; return fun d => { d with height := some v }⟩,
      ⟨"margins", do let v ← readMargins; return fun d => { d with margins := v }⟩,
      ⟨"display_par", do let v ← double; return fun d => { d with displayAspect := v }⟩]
    false ({} : GeometryDraft)
    fun _ d => return ⟨← d.width, ← d.height, d.margins, d.displayAspect⟩

def writeGeometry (g : Geometry) : String :=
  Write.object
    [("w", Write.natural g.width.toNat), ("h", Write.natural g.height.toNat),
      ("margins", writeMargins g.margins), ("display_par", Write.double g.displayAspect)]

/-! ## Video parameters, formats and options -/

structure VideoDraft where
  width : Option UInt32 := none
  height : Option UInt32 := none
  aspectNum : Option UInt32 := none
  aspectDen : Option UInt32 := none

def readVideo : Reader VideoFormat :=
  record
    [⟨"width", do let v ← word32; return fun d => { d with width := some v }⟩,
      ⟨"height", do let v ← word32; return fun d => { d with height := some v }⟩,
      ⟨"par_num", do let v ← word32; return fun d => { d with aspectNum := some v }⟩,
      ⟨"par_den", do let v ← word32; return fun d => { d with aspectDen := some v }⟩]
    false ({} : VideoDraft)
    fun _ d => return ⟨← d.width, ← d.height, ← d.aspectNum, ← d.aspectDen⟩

def writeVideo (v : VideoFormat) : String :=
  Write.object
    [("width", Write.natural v.width.toNat), ("height", Write.natural v.height.toNat),
      ("par_num", Write.natural v.aspectNum.toNat), ("par_den", Write.natural v.aspectDen.toNat)]

def readFormat : Reader PixelFormat :=
  choice [(PixelFormat.empty.name, .empty), (PixelFormat.alpha8.name, .alpha8)]

def writeFormat (f : PixelFormat) : String := Write.string f.name

def readOptions : Reader Options :=
  record
    [⟨"render_ahead", do let v ← word64; return fun o => { o with renderAhead := v }⟩,
      ⟨"visibility", do let v ← bool; return fun o => { o with visible := v }⟩]
    true ({} : Options) fun _ o => some o

def writeOptions (o : Options) : String :=
  Write.object
    [("render_ahead", Write.natural o.renderAhead.toNat), ("visibility", Write.bool o.visible)]

/-- Valid options from JSON text. -/
def optionsOfText (text : String) : Except SubtitleError Options :=
  match readOptions.all text with
  | .ok o => o.check.map fun _ => o
  | .error _ => .error (.validation "invalid subtitle options:")

end Subtitles.Json
