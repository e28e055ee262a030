/-
# PictureBackend: ready-made pictures

Pictures come in coordinates of the source video and are scaled to the video area of the
output. A picture is shown until it stops or the next one starts. Those that are over are
forgotten when a later time is rendered; until then at most four are taken in, and the backend
pushes back.
-/
import Subtitles.Backend
import Subtitles.Decimal.Reading
import Subtitles.PictureBackend.Payload
import Subtitles.RingBuffer
import Subtitles.Text.Blank
namespace Subtitles

set_option autoImplicit false

/-- A picture on its way to the screen; one without a part clears it. -/
structure PendingPicture where
  id : Nat
  start : Binary64
  stop : Option Binary64
  part : Option Part
  deriving DecidableEq, Repr

structure Extent where
  width : UInt32
  height : UInt32
  deriving DecidableEq, Repr

/-- What a render of pictures is compared by. -/
structure PictureKey where
  shown : Option Nat
  geometry : Geometry
  deriving Repr

def PictureKey.Same (k l : PictureKey) : Prop := k.shown = l.shown ∧ k.geometry.Same l.geometry

instance PictureKey.decidableSame (k l : PictureKey) : Decidable (k.Same l) := inferInstanceAs (Decidable (_ ∧ _))

structure PictureBackend where
  /-- The pictures not over yet, by their starts, equal starts by arrival. -/
  pictures : RingBuffer PendingPicture := {}
  nextId : Nat := 0
  sourceSize : Option Extent := none
  videoSize : Option Extent := none
  lastKey : Option PictureKey := none
  changes : Nat := 0
  deriving Repr

/-- A size written `WxH`, blanks around it, both numbers positive. -/
def Extent.parse? (data : Bytes) : Option Extent := do
  let text ← String.fromUTF8? ⟨data⟩
  let cs := Text.trim text.toList
  let width ← Reading.natural? (cs.takeWhile (· ≠ 'x'))
  let height ← match cs.dropWhile (· ≠ 'x') with
    | _ :: rest => Reading.natural? rest
    | [] => none
  if 0 < width ∧ width < 0x100000000 ∧ 0 < height ∧ height < 0x100000000 then
    some ⟨UInt32.ofNat width, UInt32.ofNat height⟩
  else none

namespace PictureBackend

def maxPending : Nat := 4

def init (codec : Codec) (b : PictureBackend) : Except SubtitleError Unit × PictureBackend :=
  if codec.name ≠ "picture" then
    (.error (.backend s!"picture backend does not handle codec '{codec.name}'"), b)
  else if codec.extradata.isEmpty then (.ok (), b)
  else
    match Extent.parse? codec.extradata with
    | some size => (.ok (), { b with sourceSize := some size })
    | none => (.error (.validation "picture extradata must be a \"WxH\" source size"), b)

/-- The start and the part of a packet that can be used. -/
def readable? (p : Packet) : Option (Binary64 × Option Part) :=
  match p.pts, Picture.parse p.data with
  | some start, .ok part => some (start, part)
  | _, _ => none

/-- A picture stops at the latest when one after it starts. -/
def cutAt (start : Binary64) (p : PendingPicture) : PendingPicture :=
  if p.start < start ∧ p.stop.all (fun stop => decide (start < stop)) then
    { p with stop := some start }
  else p

def decode (p : Packet) (b : PictureBackend) : PictureBackend :=
  match readable? p with
  | none => b
  | some (start, part) =>
    let earlier := b.pictures.map (cutAt start)
    let fit := earlier.partitionPoint fun q => decide (q.start ≤ start)
    let picture : PendingPicture := ⟨b.nextId, start, p.duration.map (start + ·), part⟩
    { b with pictures := earlier.insertIdx fit picture, nextId := b.nextId + 1 }

/-- How many pictures at the front are over: they stopped, or the next one has started. -/
def overCount (pts : Binary64) : List PendingPicture → Nat
  | [] => 0
  | p :: rest =>
    if rest.head?.any (fun q => decide (q.start ≤ pts)) || p.stop.any (fun s => decide (s ≤ pts))
    then overCount pts rest + 1
    else 0

/-- The front picture, if it has started, and what it draws. -/
def shown? (pts : Binary64) : List PendingPicture → Option (Nat × Part)
  | ⟨id, start, _, some part⟩ :: _ => if start ≤ pts then some (id, part) else none
  | _ => none

/-- A length of the output without its two margins, at least one. -/
def area (length : UInt32) (before after : Binary64) : Binary64 :=
  Binary64.maximum (.ofNat length.toNat - before.atLeastZero - after.atLeastZero) .one

/-- A part moved and scaled from the source video to the video area of the output. -/
def fit (b : PictureBackend) (g : Geometry) (p : Part) : Part :=
  let size := (b.sourceSize <|> b.videoSize).getD ⟨g.width, g.height⟩
  let m := g.margins
  let scaleX := area g.width m.left m.right / .ofNat (max size.width.toNat 1)
  let scaleY := area g.height m.top m.bottom / .ofNat (max size.height.toNat 1)
  { p with
    x := (m.left.atLeastZero + .ofInt p.x.toInt * scaleX).rounded.toInt32
    y := (m.top.atLeastZero + .ofInt p.y.toInt * scaleY).rounded.toInt32
    displayWidth := (.ofNat p.width.toNat * scaleX : Binary64).rounded.toUInt32
    displayHeight := (.ofNat p.height.toNat * scaleY : Binary64).rounded.toUInt32 }

/-- Note the key of a render; the change number it gets and the state after it. -/
def noteKey (b : PictureBackend) (k : PictureKey) : Nat × PictureBackend :=
  if b.lastKey.any fun l => decide (l.Same k) then (0, { b with lastKey := some k })
  else (b.changes + 1, { b with lastKey := some k, changes := b.changes + 1 })

def render (g : Geometry) (pts : Binary64) (b : PictureBackend) : Frame × PictureBackend :=
  let b := { b with pictures := b.pictures.drop (overCount pts b.pictures.items) }
  let shown := shown? pts b.pictures.items
  let (changeId, b) := b.noteKey ⟨shown.map (·.1), g⟩
  match shown with
  | some (_, part) =>
    (if g.isVoid then .blank changeId else ⟨.alpha8, [b.fit g part], changeId⟩, b)
  | none => (.blank changeId, b)

def control (c : Command) (b : PictureBackend) : Reply × PictureBackend :=
  match c with
  | .video v =>
    let size := if 0 < v.width ∧ 0 < v.height then some ⟨v.width, v.height⟩ else none
    (.done, { b with videoSize := size })
  | .step .. | .top _ | .frameRate _ => (.unknown, b)

instance : Backend PictureBackend where
  name _ := "picture"
  init := init
  decode := decode
  render g pts b := let (frame, b) := b.render g pts; (.ok frame, b)
  accepts b := some (decide (b.pictures.size < maxPending))
  reset b := { b with pictures := b.pictures.cleared, lastKey := none }
  control := control

end PictureBackend
end Subtitles
