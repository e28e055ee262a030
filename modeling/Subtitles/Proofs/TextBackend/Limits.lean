/-
# Proofs.TextBackend.Limits: which outputs text can be laid out for

Lengths are computed in 32 bits and positions in 64, and nothing keeps a geometry from asking for more.
`Fits` says what has to stay within them: the height of the block, the size of each part, and the edges of
the first and the last line. A layout ends exactly then (`parts_ends_iff`), so a render can fail by an
overflow and by nothing else (`render_ends_iff`), and for some geometries it does (`render_overflows`).
An output of less than 2 ^ 18 pixels a side with fewer lines than that is far from it (`Moderate.fits`).
-/
import Subtitles.Proofs.TextBackend.Cells
import Subtitles.Proofs.TextBackend.Indicator
import Subtitles.Proofs.TextBackend.Placement
namespace Subtitles

set_option autoImplicit false

theorem bind_ends_iff {ε α β : Type} {x : Except ε α} {k : α → Except ε β} :
    (∃ b, x >>= k = .ok b) ↔ ∃ a, x = .ok a ∧ ∃ b, k a = .ok b := by
  constructor
  · rintro ⟨b, ends⟩
    obtain ⟨a, first, rest⟩ := bind_eq_ok_iff.1 ends
    exact ⟨a, first, b, rest⟩
  · rintro ⟨a, first, b, rest⟩
    exact ⟨b, bind_eq_ok_iff.2 ⟨a, first, rest⟩⟩

namespace TextLayout

variable {g : Geometry} {color : Color} {atTop : Bool} {top : Int} {row : Nat} {line : List Char}
  {lines : List (List Char)} {ps : List Part} {p : Part}

/-! ## One line -/

/-- A line is no wider than the output, or it is a single cell. -/
theorem width_le (g : Geometry) (line : List Char) :
    cellWidth g * (kept g line).length ≤ max g.width.toNat (cellWidth g) := by
  have few : (kept g line).length ≤ lineCapacity g := by
    rw [kept, List.length_take]
    exact Nat.min_le_left ..
  refine Nat.le_trans (Nat.mul_le_mul_left _ few) ?_
  rw [lineCapacity, ← Nat.mul_max_mul_left, Nat.mul_one]
  have whole := Nat.mul_div_le g.width.toNat (cellWidth g)
  omega

theorem cellWidth_lt (g : Geometry) : cellWidth g < 0x100000000 :=
  Nat.max_lt.2 ⟨UInt32.toNat_lt _, by decide⟩

theorem width_lt (g : Geometry) (line : List Char) : cellWidth g * (kept g line).length < 0x100000000 :=
  Nat.lt_of_le_of_lt (width_le g line) (Nat.max_lt.2 ⟨g.width.toNat_lt, cellWidth_lt g⟩)

/-- What a line needs at its place below a top edge. -/
structure LineFits (g : Geometry) (top : Int) (line : List Char × Nat) : Prop where
  area : cellWidth g * (kept g line.1).length * lineHeight g < 0x100000000
  offset : isPosition (lineHeight g * line.2 : Nat) = true
  edge : isPosition (top + (lineHeight g * line.2 : Nat)) = true

theorem linePart_ends_iff (color : Color) (filled : line ≠ []) :
    (∃ part, linePart g color top row line = .ok part) ↔ LineFits g top (line, row) := by
  have some : cellWidth g * (line.take (lineCapacity g)).length ≠ 0 :=
    Nat.mul_ne_zero (Nat.ne_of_gt (cellWidth_pos g)) fun none =>
      filled (kept_eq_nil.1 (List.length_eq_zero_iff.1 none))
  constructor
  · intro ends
    obtain ⟨width, wide, ends⟩ := bind_ends_iff.1 ends
    obtain ⟨-, rfl⟩ := mulLength_eq_ok_iff.1 wide
    rw [if_neg some] at ends
    obtain ⟨size, large, ends⟩ := bind_ends_iff.1 ends
    obtain ⟨offset, below, ends⟩ := bind_ends_iff.1 ends
    obtain ⟨y, low, -⟩ := bind_ends_iff.1 ends
    obtain ⟨within, rfl⟩ := position_eq_ok_iff.1 below
    exact ⟨(mulLength_eq_ok_iff.1 large).1, within, (position_eq_ok_iff.1 low).1⟩
  · rintro ⟨area, offset, edge⟩
    refine bind_ends_iff.2 ⟨_, mulLength_eq_ok_iff.2 ⟨width_lt g line, rfl⟩, ?_⟩
    rw [if_neg some]
    refine bind_ends_iff.2 ⟨_, mulLength_eq_ok_iff.2 ⟨area, rfl⟩, ?_⟩
    refine bind_ends_iff.2 ⟨_, position_eq_ok_iff.2 ⟨offset, rfl⟩, ?_⟩
    exact bind_ends_iff.2 ⟨_, position_eq_ok_iff.2 ⟨edge, rfl⟩, _, rfl⟩

/-! ## All lines -/

theorem partsFrom_ends_iff (filled : ∀ line ∈ lines, line ≠ []) :
    (∃ ps, partsFrom g color top row lines = .ok ps) ↔ ∀ line ∈ lines.zipIdx row, LineFits g top line := by
  induction lines generalizing row with
  | nil => exact ⟨fun _ => List.forall_mem_nil _, fun _ => ⟨[], rfl⟩⟩
  | cons line rest ih =>
      obtain ⟨first, others⟩ := List.forall_mem_cons.1 filled
      rw [List.zipIdx_cons, List.forall_mem_cons, ← linePart_ends_iff color first, ← ih others]
      constructor
      · intro ends
        obtain ⟨part, laid, ends⟩ := bind_ends_iff.1 ends
        obtain ⟨parts, below, -⟩ := bind_ends_iff.1 ends
        exact ⟨⟨part, laid⟩, parts, below⟩
      · rintro ⟨⟨part, laid⟩, parts, below⟩
        exact bind_ends_iff.2 ⟨part, laid, bind_ends_iff.2 ⟨parts, below, _, rfl⟩⟩

/-- What a layout needs: lengths of 32 bits, positions of 64. The lines between the first and the last need no more. -/
structure Fits (g : Geometry) (atTop : Bool) (lines : List (List Char)) : Prop where
  block : blockHeight g lines.length < 0x100000000
  areas : ∀ line ∈ lines, cellWidth g * (kept g line).length * lineHeight g < 0x100000000
  first : isPosition (blockEdge g atTop (blockHeight g lines.length)) = true
  offset : isPosition (lineHeight g * (lines.length - 1) : Nat) = true
  last : isPosition (lineTop g atTop lines.length (lines.length - 1)) = true

theorem Fits.lineFits (fits : Fits g atTop lines) {numbered : List Char × Nat} (member : numbered ∈ lines.zipIdx) :
    LineFits g (blockEdge g atTop (blockHeight g lines.length)) numbered := by
  obtain ⟨line, row⟩ := numbered
  obtain ⟨-, below, isLine⟩ := List.mem_zipIdx member
  have above : lineHeight g * row ≤ lineHeight g * (lines.length - 1) := Nat.mul_le_mul_left _ (by omega)
  have first := isPosition_iff.1 fits.first
  have offset := isPosition_iff.1 fits.offset
  have last := isPosition_iff.1 fits.last
  rw [lineTop] at last
  refine ⟨fits.areas line (isLine ▸ List.getElem_mem _), isPosition_iff.2 ?_, isPosition_iff.2 ?_⟩
  · dsimp only
    omega
  · dsimp only
    omega

/-- A layout of lines that all have characters ends exactly when they fit. -/
theorem parts_ends_iff (filled : ∀ line ∈ lines, line ≠ []) :
    (∃ ps, parts g atTop color lines = .ok ps) ↔ Fits g atTop lines := by
  constructor
  · intro ends
    obtain ⟨height, high, ends⟩ := bind_ends_iff.1 ends
    obtain ⟨top, edge, ends⟩ := bind_ends_iff.1 ends
    obtain ⟨block, rfl⟩ := mulLength_eq_ok_iff.1 high
    obtain ⟨first, rfl⟩ := blockTop_eq_ok_iff.1 edge
    have fit := (partsFrom_ends_iff filled).1 ends
    have areas : ∀ line ∈ lines, cellWidth g * (kept g line).length * lineHeight g < 0x100000000 := by
      intro line member
      obtain ⟨row, below, rfl⟩ := List.getElem_of_mem member
      exact (fit (lines[row], row) (List.mk_mem_zipIdx_iff_getElem?.2 (List.getElem?_eq_getElem below))).area
    cases lines with
    | nil =>
        have origin : lineHeight g * (([] : List (List Char)).length - 1) = 0 := Nat.mul_zero _
        refine ⟨block, areas, first, ?_, ?_⟩
        · rw [origin]
          rfl
        · rwa [lineTop, origin, Int.natCast_zero, Int.add_zero]
    | cons line rest =>
        have last := fit ((line :: rest)[rest.length], rest.length)
          (List.mk_mem_zipIdx_iff_getElem?.2 (List.getElem?_eq_getElem (Nat.lt_succ_self _)))
        exact ⟨block, areas, first, last.offset, last.edge⟩
  · intro fits
    refine bind_ends_iff.2 ⟨_, mulLength_eq_ok_iff.2 ⟨fits.block, rfl⟩, ?_⟩
    refine bind_ends_iff.2 ⟨_, blockTop_eq_ok_iff.2 ⟨fits.first, rfl⟩, ?_⟩
    exact (partsFrom_ends_iff filled).2 fun numbered member => fits.lineFits member

/-! ## Moderate sizes -/

/-- The geometry and the number of lines are of everyday size, or up to some hundred times that. -/
structure Moderate (g : Geometry) (count : Nat) : Prop where
  width : g.width.toNat < 2 ^ 18
  areaHeight : g.areaHeight.toNat < 2 ^ 18
  count : count < 2 ^ 18
  topMargin : g.margins.top.atLeastZero.toInt64Value < 0x4000000000000000
  bottomMargin : g.margins.bottom.atLeastZero.toInt64Value < 0x4000000000000000

theorem widthFor_lt {height : Nat} (moderate : height ≤ 14563) : widthFor height < 2 ^ 18 := by
  have widest : Binary64.ofNat 14563 * cellAspect ≤ .ofNat 8738 := by decide +kernel
  have finite : ∀ n ≤ 14563, (Binary64.ofNat n).isFinite = true := fun n small =>
    Binary64.isFinite_ofNat (Nat.lt_of_le_of_lt small (by decide))
  have narrow : Binary64.ofNat height * cellAspect ≤ .ofNat 8738 :=
    Binary64.le_trans (Binary64.mul_le_mul_right (Binary64.ofNat_le_ofNat moderate) (Binary64.negative_ofNat height)
      (Binary64.negative_ofNat 14563) (finite 14563 (Nat.le_refl _)) (by decide) (by decide)) widest
  have positive : (Binary64.ofNat height * cellAspect).negative = false := by
    rw [Binary64.mul_eq (Binary64.negative_ofNat height) (finite height moderate) (by decide) (by decide)]
    exact Binary64.negative_pack (Nat.lt_of_le_of_lt (Binary64.roundMagnitude_le _ _) (by decide))
  obtain ⟨positive, narrow⟩ := Binary64.rounded_le_ofNat (by decide) positive narrow
  have cut := Binary64.toUInt32_le (by decide) positive narrow
  rw [widthFor]
  omega

theorem Moderate.fits (moderate : Moderate g lines.length) : Fits g atTop lines := by
  obtain ⟨width, areaHeight, count, topMargin, bottomMargin⟩ := moderate
  have isHeight : lineHeight g = max (g.areaHeight.toNat / 18) 2 := rfl
  -- An eighteenth of the height.
  have low : lineHeight g ≤ 14563 := by omega
  have narrow : cellWidth g < 2 ^ 18 := widthFor_lt low
  have topEdge : 0 ≤ g.margins.top.atLeastZero.toInt64Value := Binary64.clampTo_atLeastZero_nonneg _ _ (by decide)
  have bottomEdge : 0 ≤ g.margins.bottom.atLeastZero.toInt64Value :=
    Binary64.clampTo_atLeastZero_nonneg _ _ (by decide)
  have product : ∀ n < 2 ^ 18, lineHeight g * n < 0x100000000 := fun n small =>
    Nat.lt_of_le_of_lt (Nat.mul_le_mul low (Nat.le_of_lt_succ small)) (by decide)
  have words : (UInt32.ofNat lines.length).toNat = lines.length :=
    UInt32.toNat_ofNat_of_lt' (Nat.lt_trans count (by decide))
  have block : blockHeight g lines.length < 0x100000000 := by
    rw [blockHeight, words]
    exact product _ count
  have offset := product (lines.length - 1) (by omega)
  have edge : -0x6000000000000000 ≤ blockEdge g atTop (blockHeight g lines.length) ∧
      blockEdge g atTop (blockHeight g lines.length) < 0x6000000000000000 := by
    have output := g.height.toNat_lt
    cases atTop with
    | true =>
        rw [blockEdge, if_pos rfl]
        omega
    | false =>
        rw [blockEdge, if_neg Bool.false_ne_true]
        omega
  refine ⟨block, fun line _ => ?_, isPosition_iff.2 ?_, isPosition_iff.2 ?_, isPosition_iff.2 ?_⟩
  · rw [Nat.mul_comm]
    exact product _ (Nat.lt_of_le_of_lt (width_le g line) (Nat.max_lt.2 ⟨width, narrow⟩))
  · omega
  · omega
  · rw [lineTop]
    omega

/-! ## Indices -/

/-- The cells of the part fill its width, and its pixels are in its coverage, at places of 32 bits. -/
structure Addressable (g : Geometry) (p : Part) : Prop where
  cells : cellWidth g ∣ p.width.toNat
  size : p.bitmap.size < 0x100000000
  pixel : ∀ x y, x < p.width.toNat → y < p.height.toNat → y * p.width.toNat + x < p.bitmap.size

theorem addressable_parts (laid : parts g atTop color lines = .ok ps) (filled : ∀ line ∈ lines, line ≠ []) :
    ∀ p ∈ ps, Addressable g p := by
  intro p member
  have fits : Fits g atTop lines := (parts_ends_iff filled).1 ⟨ps, laid⟩
  obtain ⟨lengths, partsOf⟩ := parts_numbered laid filled
  obtain ⟨row, below, rfl⟩ := List.getElem_of_mem member
  have inLines : row < lines.length := lengths ▸ below
  have partOf := partsOf row _ _ (List.getElem?_eq_getElem inLines) (List.getElem?_eq_getElem below)
  constructor
  · rw [partOf.width]
    exact Nat.dvd_mul_right ..
  · rw [partOf.size, partOf.height, partOf.width]
    exact fits.areas _ (List.getElem_mem inLines)
  · intro x y inside within
    rw [partOf.size]
    exact index_lt inside within

end TextLayout

namespace TextBackend

open TextLayout

variable {us : List Use} {g : Geometry} {pts : Binary64} {f : Frame}

/-- The lines that a render shows after uses. -/
def linesAfter (us : List Use) (pts : Binary64) : List (List Char) :=
  visibleLines ((afterUses ({} : TextBackend) us).active pts)

theorem filled_linesAfter (us : List Use) (pts : Binary64) : ∀ line ∈ linesAfter us pts, line ≠ [] := by
  rintro _ member rfl
  exact absurd (List.of_mem_filter member) (by decide)

/-- A render ends exactly when its parts are drawn. -/
theorem render_ends_iff_drawn (us : List Use) (g : Geometry) (pts : Binary64) :
    (∃ f, renderAfter ({} : TextBackend) us g pts = .ok f) ↔
      ∃ ps, drawn ((afterUses ({} : TextBackend) us).active pts) g (afterUses ({} : TextBackend) us).atTop = .ok ps := by
  obtain ⟨draws, faults, -⟩ := render_cases (afterUses ({} : TextBackend) us) g pts
  constructor
  · rintro ⟨f, answer⟩
    obtain ⟨ps, shown, -⟩ := draws f answer
    exact ⟨ps, shown⟩
  · rintro ⟨ps, shown⟩
    cases answer : renderAfter ({} : TextBackend) us g pts with
    | ok f => exact ⟨f, rfl⟩
    | error fault => exact absurd (shown.symm.trans (faults fault answer)) nofun

/-- Whatever a backend was used for, a render ends exactly when there is nothing to render for, or the lines fit. Its
only faults are overflows. Where it ends, all pixels of all parts are at places of their coverage; and it ends for
all outputs of moderate size. -/
theorem render_ends_iff (us : List Use) (g : Geometry) (pts : Binary64) :
    ((∃ f, renderAfter ({} : TextBackend) us g pts = .ok f) ↔
      g.isVoid = true ∨ Fits g (afterUses ({} : TextBackend) us).atTop (linesAfter us pts)) ∧
    (∀ fault, renderAfter ({} : TextBackend) us g pts = .error fault → ∃ op, fault = .overflow op) ∧
    (∀ f, renderAfter ({} : TextBackend) us g pts = .ok f → ∀ p ∈ f.parts, Addressable g p) ∧
    (Moderate g (linesAfter us pts).length → ∃ f, renderAfter ({} : TextBackend) us g pts = .ok f) := by
  obtain ⟨draws, faults, -⟩ := render_cases (afterUses ({} : TextBackend) us) g pts
  have ends : (∃ f, renderAfter ({} : TextBackend) us g pts = .ok f) ↔
      g.isVoid = true ∨ Fits g (afterUses ({} : TextBackend) us).atTop (linesAfter us pts) := by
    rw [render_ends_iff_drawn, drawn]
    cases g.isVoid with
    | true => exact ⟨fun _ => .inl rfl, fun _ => ⟨[], rfl⟩⟩
    | false => exact (parts_ends_iff (filled_linesAfter us pts)).trans (or_iff_right Bool.false_ne_true).symm
  refine ⟨ends, fun fault answer => ?_, fun f answer => ?_, fun moderate => ends.2 (.inr moderate.fits)⟩
  · exact onlyOverflows_drawn _ _ _ fault (faults fault answer)
  · obtain ⟨ps, shown, made⟩ := draws f answer
    rw [made.2]
    unfold drawn at shown
    split at shown
    · obtain rfl := Except.ok.inj shown
      exact List.forall_mem_nil _
    · exact addressable_parts shown (filled_linesAfter us pts)

/-- A single line. -/
def oneLine : List Use := [.decode (.ofText (some .zero) none "a")]

theorem render_ends_iff_oneLine :
    Moderate { width := 160, height := 90 } (linesAfter oneLine .zero).length ∧
      ∃ f, renderAfter ({} : TextBackend) oneLine { width := 160, height := 90 } .zero = .ok f := by
  have moderate : Moderate { width := 160, height := 90 } (linesAfter oneLine .zero).length :=
    ⟨by decide, by decide +kernel, by decide +kernel, by decide +kernel, by decide +kernel⟩
  exact ⟨moderate, (render_ends_iff oneLine _ .zero).2.2.2 moderate⟩

/-- The bottom margin is `1e300`. -/
def deepMargin : Geometry := { width := 10, height := 1, margins := { bottom := ⟨0x7e37e43c8800759c⟩ } }

/-- A margin is cut to 64 bits, but to go up from there by half a line and a line takes more. -/
theorem render_overflows :
    ¬ ∀ us g pts, ∃ f, renderAfter ({} : TextBackend) us g pts = .ok f := by
  intro always
  obtain ⟨f, answer⟩ := always oneLine deepMargin .zero
  have fails : (renderAfter ({} : TextBackend) oneLine deepMargin .zero).toBool = false := by decide +kernel
  rw [answer] at fails
  exact Bool.noConfusion fails

end TextBackend
end Subtitles
