/-
# Proofs.Canvas: a composite, pixel by pixel

`Frame.pixelAt` says which pixel a frame has at a place of the output: the parts that cover it
are blended over a transparent one, in order. Nothing in it depends on a canvas. Painting walks over
rows and columns of a part instead, and writes into one array. `Canvas.Paints` says that painting goes
well whatever is on the canvas, and what it makes of each place. It holds of one pixel, since a pixel
that is not passed over is in range (`paints_blendAt`); then of so many columns, of so many rows, of a
part and of all parts, each from the one before. So a composite ends wherever memory holds its canvas
(`composite_ends_iff`), with the bytes of `pixelAt` at each place (`composite_pixels`).
-/
import Subtitles.Canvas
import Subtitles.Proofs.Ended
import Mathlib.Logic.Basic
namespace Subtitles

set_option autoImplicit false

/-! ## What a frame has at a place -/

namespace Part

/-- The part blends its display pixel in column `dx` over what is there, if the row reaches so far. -/
def shade (p : Part) (row : Bytes) (dx : Nat) (below : Pixel) : Pixel :=
  match row[dx * p.width.toNat / p.displayWidth.toNat]? with
  | some coverage => (Pixel.tint p.color coverage).blend below
  | none => below

/-- The part has pixels, and its display rectangle covers the place. -/
def Covers (p : Part) (X Y : Nat) : Prop :=
  p.isVoid = false ∧ p.x.toInt ≤ X ∧ (X : Int) < p.x.toInt + p.displayWidth.toNat ∧
    p.y.toInt ≤ Y ∧ (Y : Int) < p.y.toInt + p.displayHeight.toNat

instance (p : Part) (X Y : Nat) : Decidable (p.Covers X Y) := inferInstanceAs (Decidable (_ ∧ _ ∧ _ ∧ _ ∧ _))

/-- The part over what is there at a place: the row and the column of its bitmap are found in
proportion. -/
def overlay (p : Part) (X Y : Nat) (below : Pixel) : Pixel :=
  if p.Covers X Y then
    let dy := (Y - p.y.toInt).toNat
    p.shade (p.row (UInt32.ofNat (dy * p.height.toNat / p.displayHeight.toNat))) (X - p.x.toInt).toNat below
  else below

end Part

/-- The parts of a frame at a place, in order over a transparent pixel. -/
def Frame.pixelAt (f : Frame) (X Y : Nat) : Pixel :=
  if f.isEmpty then .transparent else f.parts.foldl (fun below p => p.overlay X Y below) .transparent

/-- A place of an output has an index below its area. -/
theorem index_lt {width height X Y : Nat} (inside : X < width) (above : Y < height) :
    Y * width + X < width * height := by
  have next := Nat.mul_le_mul_left width above
  rw [Nat.mul_succ, Nat.mul_comm width Y] at next
  omega

/-- Different places have different indices. -/
theorem index_eq_iff {width X Y X' Y' : Nat} (inside : X < width) (inside' : X' < width) :
    Y * width + X = Y' * width + X' ↔ Y = Y' ∧ X = X' := by
  rcases Nat.lt_trichotomy Y Y' with above | same | below
  · have := Nat.mul_le_mul_right width above
    rw [Nat.succ_mul] at this
    omega
  · subst same
    omega
  · have := Nat.mul_le_mul_right width below
    rw [Nat.succ_mul] at this
    omega

theorem length_flatten_of_length {α : Type} {rows : List (List α)} {n : Nat} (length : ∀ row ∈ rows, row.length = n) :
    rows.flatten.length = rows.length * n := by
  induction rows with
  | nil => exact (Nat.zero_mul n).symm
  | cons row rows ih =>
      obtain ⟨here, others⟩ := List.forall_mem_cons.1 length
      rw [List.flatten_cons, List.length_append, here, ih others, List.length_cons, Nat.succ_mul, Nat.add_comm]

/-- An item of lists of one length, put together. -/
theorem getElem?_flatten_of_length {α : Type} {rows : List (List α)} {n : Nat} (length : ∀ row ∈ rows, row.length = n)
    (i : Nat) {k : Nat} (inside : k < n) : rows.flatten[i * n + k]? = rows[i]?.bind fun row => row[k]? := by
  induction rows generalizing i with
  | nil => rfl
  | cons row rows ih =>
      obtain ⟨here, others⟩ := List.forall_mem_cons.1 length
      rw [List.flatten_cons]
      cases i with
      | zero =>
          rw [List.getElem?_append_left (by omega), Nat.zero_mul, Nat.zero_add]
          rfl
      | succ i =>
          have later : (i + 1) * n + k - row.length = i * n + k := by rw [Nat.succ_mul]; omega
          rw [List.getElem?_append_right (by rw [Nat.succ_mul]; omega), later, ih others]
          rfl

namespace Canvas

variable {width height : Nat}

/-! ## Painting -/

/-- Whatever is on the canvas, painting goes well, and makes this of each pixel. -/
def Paints (change : Nat → Nat → Pixel → Pixel)
    (paint : Canvas width height → Except Fault (Canvas width height)) : Prop :=
  ∀ c, ∃ d, paint c = .ok d ∧ ∀ X Y, X < width → Y < height →
    d.pixels[Y * width + X]? = c.pixels[Y * width + X]?.map (change X Y)

namespace Paints

variable {change later : Nat → Nat → Pixel → Pixel}
  {paint next : Canvas width height → Except Fault (Canvas width height)}

theorem nothing : Paints (fun _ _ below => below) (.ok : Canvas width height → Except Fault _) :=
  fun c => ⟨c, rfl, fun _ _ _ _ => (Option.map_id' ..).symm⟩

theorem bind (first : Paints change paint) (second : Paints later next) :
    Paints (fun X Y below => later X Y (change X Y below)) fun c => paint c >>= next := by
  intro c
  obtain ⟨d, painted, pixels⟩ := first c
  obtain ⟨e, painted', pixels'⟩ := second d
  refine ⟨e, bind_eq_ok_iff.2 ⟨d, painted, painted'⟩, fun X Y inside above => ?_⟩
  rw [pixels' X Y inside above, pixels X Y inside above, Option.map_map]
  rfl

/-- Only places of the canvas count. -/
theorem congr (paints : Paints change paint)
    (same : ∀ X Y, X < width → Y < height → ∀ below, change X Y below = later X Y below) : Paints later paint := by
  intro c
  obtain ⟨d, painted, pixels⟩ := paints c
  refine ⟨d, painted, fun X Y inside above => ?_⟩
  rw [pixels X Y inside above, funext (same X Y inside above)]

end Paints

/-- A pixel of the canvas is in range. -/
theorem paints_blendAt {X Y : Nat} (inside : X < width) (above : Y < height) (pixel : Pixel) :
    Paints (fun X' Y' below => if Y' = Y ∧ X' = X then pixel.blend below else below)
      fun c : Canvas width height => c.blendAt (Y * width + X) pixel := by
  intro c
  have bound : Y * width + X < c.pixels.size := c.size_pixels ▸ index_lt inside above
  refine ⟨_, if_pos bound, fun X' Y' inside' _ => ?_⟩
  rw [Array.getElem?_modify]
  by_cases same : Y * width + X = Y' * width + X'
  · obtain ⟨rfl, rfl⟩ := (index_eq_iff inside inside').1 same
    simp
  · have other : ¬ (Y' = Y ∧ X' = X) := by
      rintro ⟨rfl, rfl⟩
      exact same rfl
    simp [same, other]

/-- A display pixel is shaded, if the canvas has its place. -/
theorem paints_paintPixel (p : Part) (row : Bytes) {Y : Nat} (above : Y < height) (dx : Nat) :
    Paints (fun X' Y' below => if Y' = Y ∧ (X' : Int) = p.x.toInt + dx then p.shade row dx below else below)
      (@paintPixel width height p row Y dx) := by
  unfold paintPixel Part.shade
  dsimp only
  by_cases beside : p.x.toInt + dx < 0 ∨ width ≤ p.x.toInt + dx
  · simp only [if_pos beside]
    exact Paints.nothing.congr fun X' Y' inside' _ below => (if_neg (by omega)).symm
  · have inside : (p.x.toInt + dx).toNat < width := by omega
    simp only [if_neg beside]
    cases row[dx * p.width.toNat / p.displayWidth.toNat]? with
    | some coverage =>
        refine (paints_blendAt inside above (.tint p.color coverage)).congr fun X' Y' _ _ below => ?_
        exact if_congr (by omega) rfl rfl
    | none => exact Paints.nothing.congr fun X' Y' _ _ below => (ite_self below).symm

/-- A row of columns shades their places, each in its own column. -/
theorem paints_paintColumns (p : Part) (row : Bytes) {Y : Nat} (above : Y < height) (dx count : Nat) :
    Paints (fun X' Y' below =>
        if Y' = Y ∧ p.x.toInt + dx ≤ X' ∧ (X' : Int) < p.x.toInt + dx + count then
          p.shade row (X' - p.x.toInt).toNat below
        else below)
      (@paintColumns width height p row Y dx count) := by
  induction count generalizing dx with
  | zero => exact Paints.nothing.congr fun X' Y' _ _ below => (if_neg (by omega)).symm
  | succ count ih =>
      refine ((paints_paintPixel p row above dx).bind (ih (dx + 1))).congr fun X' Y' _ _ below => ?_
      by_cases first : Y' = Y ∧ (X' : Int) = p.x.toInt + dx
      · have column : (X' - p.x.toInt).toNat = dx := by omega
        rw [if_neg (by omega), if_pos first, if_pos (by omega), column]
      · rw [if_neg first]
        exact if_congr (by omega) rfl rfl

/-- What a display row of a part does at a place. -/
def rowOverlay (p : Part) (dy X : Nat) (below : Pixel) : Pixel :=
  if p.x.toInt ≤ X ∧ (X : Int) < p.x.toInt + p.displayWidth.toNat then
    p.shade (p.row (UInt32.ofNat (dy * p.height.toNat / p.displayHeight.toNat))) (X - p.x.toInt).toNat below
  else below

theorem paints_paintRow (p : Part) (dy : Nat) :
    Paints (fun X Y below => if (Y : Int) = p.y.toInt + dy then rowOverlay p dy X below else below)
      (@paintRow width height p dy) := by
  unfold paintRow
  dsimp only
  by_cases outside : p.y.toInt + dy < 0 ∨ height ≤ p.y.toInt + dy
  · simp only [if_pos outside]
    exact Paints.nothing.congr fun X Y _ above below => (if_neg (by omega)).symm
  · simp only [if_neg outside]
    refine (paints_paintColumns p _ (Y := (p.y.toInt + dy).toNat) (by omega) 0 _).congr fun X Y _ _ below => ?_
    by_cases here : (Y : Int) = p.y.toInt + dy
    · rw [if_pos here, rowOverlay]
      exact if_congr (by omega) rfl rfl
    · rw [if_neg here, if_neg (by omega)]

theorem paints_paintRows (p : Part) (dy count : Nat) :
    Paints (fun X Y below =>
        if p.y.toInt + dy ≤ Y ∧ (Y : Int) < p.y.toInt + dy + count then
          rowOverlay p (Y - p.y.toInt).toNat X below
        else below)
      (@paintRows width height p dy count) := by
  induction count generalizing dy with
  | zero => exact Paints.nothing.congr fun X Y _ _ below => (if_neg (by omega)).symm
  | succ count ih =>
      refine ((paints_paintRow p dy).bind (ih (dy + 1))).congr fun X Y _ _ below => ?_
      by_cases first : (Y : Int) = p.y.toInt + dy
      · have row : (Y - p.y.toInt).toNat = dy := by omega
        rw [if_neg (by omega), if_pos first, if_pos (by omega), row]
      · rw [if_neg first]
        exact if_congr (by omega) rfl rfl

/-- A part is blended over every place of the canvas that it covers. -/
theorem paints_paint (p : Part) : Paints p.overlay fun c : Canvas width height => c.paint p := by
  unfold paint
  cases void : p.isVoid with
  | true =>
      simp only [if_true]
      refine Paints.nothing.congr fun X Y _ _ below => ?_
      rw [Part.overlay, if_neg fun covers => Bool.noConfusion (void.symm.trans covers.1)]
  | false =>
      simp only [Bool.false_eq_true, if_false]
      refine (paints_paintRows p 0 p.displayHeight.toNat).congr fun X Y _ _ below => ?_
      by_cases covered : p.y.toInt ≤ Y ∧ (Y : Int) < p.y.toInt + p.displayHeight.toNat
      · rw [if_pos (by omega), rowOverlay, Part.overlay]
        refine if_congr ?_ rfl rfl
        simp [Part.Covers, void, covered]
      · rw [if_neg (by omega), Part.overlay, if_neg fun covers => covered covers.2.2.2]

theorem paints_parts (ps : List Part) :
    Paints (fun X Y below => ps.foldl (fun below p => p.overlay X Y below) below)
      fun c : Canvas width height => ps.foldlM paint c := by
  induction ps with
  | nil => exact .nothing
  | cons p ps ih => exact (paints_paint p).bind ih

/-! ## The bytes of a canvas -/

/-- The bytes of a canvas are those of its pixels, one after the other. -/
theorem toList_bytes (c : Canvas width height) : c.bytes.toList = c.pixels.toList.flatMap Pixel.bytes := by
  have pushed : ∀ (ps : List Pixel) (out : Bytes),
      (ps.foldl (fun out p => (((out.push p.red).push p.green).push p.blue).push p.alpha) out).toList =
        out.toList ++ ps.flatMap Pixel.bytes := by
    intro ps
    induction ps with
    | nil => exact fun out => (List.append_nil _).symm
    | cons p ps ih =>
        intro out
        rw [List.foldl_cons, ih, List.flatMap_cons]
        simp [Pixel.bytes]
  rw [bytes, ← Array.foldl_toList, pushed]
  rfl

theorem length_of_mem_bytes {ps : List Pixel} : ∀ bytes ∈ ps.map Pixel.bytes, bytes.length = 4 := by
  intro bytes member
  obtain ⟨p, -, rfl⟩ := List.mem_map.1 member
  rfl

theorem getElem?_flatMap_bytes (ps : List Pixel) (i : Nat) {k : Nat} (channel : k < 4) :
    (ps.flatMap Pixel.bytes)[4 * i + k]? = ps[i]?.bind fun p => p.bytes[k]? := by
  rw [List.flatMap_def, Nat.mul_comm, getElem?_flatten_of_length length_of_mem_bytes i channel, List.getElem?_map,
    Option.bind_map]
  rfl

theorem getElem?_bytes (c : Canvas width height) (i : Nat) {k : Nat} (channel : k < 4) :
    c.bytes[4 * i + k]? = c.pixels[i]?.bind fun p => p.bytes[k]? := by
  rw [← Array.getElem?_toList, toList_bytes, getElem?_flatMap_bytes _ _ channel, Array.getElem?_toList]

theorem size_bytes (c : Canvas width height) : c.bytes.size = width * height * 4 := by
  rw [← Array.length_toList, toList_bytes, List.flatMap_def, length_flatten_of_length length_of_mem_bytes,
    List.length_map, Array.length_toList, c.size_pixels]

end Canvas

namespace Frame

open Canvas

variable {f : Frame} {width height : UInt32} {bytes : Bytes}

/-- A canvas of any size can be painted, and holds the pixels of the frame. -/
theorem onCanvas_eq_ok (f : Frame) (width height : Nat) : ∃ c, f.onCanvas width height = .ok c ∧
    ∀ X Y, X < width → Y < height → c.pixels[Y * width + X]? = some (f.pixelAt X Y) := by
  have blank : ∀ X Y, X < width → Y < height →
      (Canvas.transparent width height).pixels[Y * width + X]? = some .transparent := by
    intro X Y inside above
    have within : Y * width + X < width * height := index_lt inside above
    simp [Canvas.transparent, within]
  unfold onCanvas pixelAt
  split
  · exact ⟨_, rfl, blank⟩
  · obtain ⟨c, painted, pixels⟩ := paints_parts f.parts (.transparent width height)
    refine ⟨c, painted, fun X Y inside above => ?_⟩
    rw [pixels X Y inside above, blank X Y inside above]
    rfl

/-- A composite that ends is a canvas, in bytes. -/
theorem composite_eq_ok (composed : f.composite width height = .ok bytes) :
    ∃ c, f.onCanvas width.toNat height.toNat = .ok c ∧ bytes = c.bytes := by
  obtain ⟨n, -, composed⟩ := bind_eq_ok_iff.1 composed
  obtain ⟨c, painted, composed⟩ := bind_eq_ok_iff.1 composed
  exact ⟨c, painted, (Except.ok.inj composed).symm⟩

/-- It ends wherever memory can hold the canvas, whatever is drawn. -/
theorem composite_ends_iff :
    (∃ bytes, f.composite width height = .ok bytes) ↔ ∃ n, canvasBytes width height = .ok n := by
  constructor
  · rintro ⟨bytes, composed⟩
    obtain ⟨n, room, -⟩ := bind_eq_ok_iff.1 composed
    exact ⟨n, room⟩
  · rintro ⟨n, room⟩
    obtain ⟨c, painted, -⟩ := f.onCanvas_eq_ok width.toNat height.toNat
    exact ⟨c.bytes, bind_eq_ok_iff.2 ⟨n, room, bind_eq_ok_iff.2 ⟨c, painted, rfl⟩⟩⟩

/-- Memory holds any canvas of fewer than two to the 63 bytes. -/
theorem composite_of_fits (f : Frame) (fits : width.toNat * height.toNat * 4 < 0x8000000000000000) :
    ∃ bytes, f.composite width height = .ok bytes := by
  refine composite_ends_iff.2 ⟨width.toNat * height.toNat * 4, ?_⟩
  rw [canvasBytes, if_neg (by rw [maxLength]; omega), if_neg (by omega)]

theorem size_composite (composed : f.composite width height = .ok bytes) :
    bytes.size = width.toNat * height.toNat * 4 := by
  obtain ⟨c, -, rfl⟩ := composite_eq_ok composed
  exact c.size_bytes

theorem getElem?_composite (composed : f.composite width height = .ok bytes) {X Y k : Nat} (inside : X < width.toNat)
    (above : Y < height.toNat) (channel : k < 4) :
    bytes[4 * (Y * width.toNat + X) + k]? = (f.pixelAt X Y).bytes[k]? := by
  obtain ⟨c, painted, rfl⟩ := composite_eq_ok composed
  obtain ⟨c', painted', pixels⟩ := f.onCanvas_eq_ok width.toNat height.toNat
  obtain rfl := Except.ok.inj (painted.symm.trans painted')
  rw [getElem?_bytes _ _ channel, pixels X Y inside above]
  rfl

/-- Nothing to draw leaves all bytes zero. -/
theorem composite_of_isEmpty (composed : f.composite width height = .ok bytes) (empty : f.isEmpty = true) :
    ∀ b ∈ bytes, b = 0 := by
  obtain ⟨c, painted, rfl⟩ := composite_eq_ok composed
  rw [onCanvas, if_pos empty] at painted
  obtain rfl := Except.ok.inj painted
  intro b member
  rw [← Array.mem_toList_iff, toList_bytes] at member
  obtain ⟨p, present, channel⟩ := List.mem_flatMap.1 member
  obtain rfl : p = .transparent := Array.eq_of_mem_replicate (Array.mem_toList_iff.1 present)
  simpa [Pixel.bytes, Pixel.transparent] using channel

end Frame

/-- On a canvas of any size that memory can hold, a composite ends without a fault. Its bytes are
those of the pixels that the frame has at each place, which do not depend on the size, so the common
places of two canvases agree. A frame with nothing to draw gives zeros. -/
theorem composite_pixels (f : Frame) {width height : UInt32}
    (fits : width.toNat * height.toNat * 4 < 0x8000000000000000) :
    ∃ bytes, f.composite width height = .ok bytes ∧ bytes.size = width.toNat * height.toNat * 4 ∧
      (∀ X Y, X < width.toNat → Y < height.toNat → ∀ k < 4,
        bytes[4 * (Y * width.toNat + X) + k]? = (f.pixelAt X Y).bytes[k]?) ∧
      (f.isEmpty = true → ∀ b ∈ bytes, b = 0) ∧
      ∀ (width' height' : UInt32) bytes', f.composite width' height' = .ok bytes' →
        ∀ X Y, X < width.toNat → X < width'.toNat → Y < height.toNat → Y < height'.toNat → ∀ k < 4,
          bytes[4 * (Y * width.toNat + X) + k]? = bytes'[4 * (Y * width'.toNat + X) + k]? := by
  obtain ⟨bytes, composed⟩ := f.composite_of_fits fits
  refine ⟨bytes, composed, Frame.size_composite composed, ?_, Frame.composite_of_isEmpty composed, ?_⟩
  · intro X Y inside above k channel
    exact Frame.getElem?_composite composed inside above channel
  · intro width' height' bytes' composed' X Y inside inside' above above' k channel
    rw [Frame.getElem?_composite composed inside above channel, Frame.getElem?_composite composed' inside' above' channel]

/-- One white pixel shown at twice its size. -/
def whiteSquare : Frame := ⟨.alpha8, [⟨0, 0, 1, 1, 2, 2, 1, .white, #[255]⟩], 1⟩

/-- On a canvas three pixels wide the square leaves the last row and the last column free. -/
theorem composite_pixels_whiteSquare :
    (3 : UInt32).toNat * (3 : UInt32).toNat * 4 < 0x8000000000000000 ∧
      ∃ bytes, whiteSquare.composite 3 3 = .ok bytes ∧ bytes.size = 36 ∧
        bytes[4 * (1 * 3 + 1) + 3]? = some 255 ∧ bytes[4 * (1 * 3 + 2) + 3]? = some 0 := by
  have fits : (3 : UInt32).toNat * (3 : UInt32).toNat * 4 < 0x8000000000000000 := by decide
  obtain ⟨bytes, composed, size, pixels, -⟩ := composite_pixels whiteSquare fits
  refine ⟨fits, bytes, composed, size, ?_, ?_⟩
  · exact (pixels 1 1 (by decide) (by decide) 3 (by decide)).trans (by decide +kernel)
  · exact (pixels 2 1 (by decide) (by decide) 3 (by decide)).trans (by decide +kernel)

/-- A canvas of two to the 63 bytes is longer than a vector of bytes can be, though its length is
still a number of 64 bits. -/
theorem canvas_exceeds_vector :
    (0x80000000 : UInt32).toNat * (0x40000000 : UInt32).toNat * 4 ≤ maxLength ∧
      (Frame.blank 0).composite 0x80000000 0x40000000 = .error .capacity :=
  ⟨by decide, rfl⟩

end Subtitles
