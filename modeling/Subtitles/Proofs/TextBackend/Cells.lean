/-
# Proofs.TextBackend.Cells: which characters leave ink

Every visible character should fill its cell. The outermost pixels of a cell stay clear, so a cell needs
three columns for any ink (`inksCell_iff`). A cell is six tenths as wide as its line is high, and a line an
eighteenth of the height of the video: three columns take 90 pixels of video (`three_le_cellWidth_iff`).
Below that, characters take their place in a part without a trace (`no_ink_below_ninety`).
-/
import Subtitles.Proofs.Binary64.Products
import Subtitles.Proofs.TextBackend.Layout
namespace Subtitles

set_option autoImplicit false

namespace TextLayout

variable {g : Geometry} {color : Color} {atTop : Bool} {lines : List (List Char)} {ps : List Part} {p : Part}
  {numbered : List Char × Nat} {top : Int} {i : Nat} {c : Char}

/-! ## The width of a cell -/

/-- The width of a cell of a line so high. -/
def widthFor (height : Nat) : Nat := max (Binary64.rounded (.ofNat height * cellAspect)).toUInt32.toNat 1

theorem widthFor_le : ∀ height, 2 ≤ height → height ≤ 4 → widthFor height ≤ 2 := by
  have small : widthFor 2 ≤ 2 ∧ widthFor 3 ≤ 2 ∧ widthFor 4 ≤ 2 := by decide +kernel
  intro height low high
  obtain rfl | rfl | rfl : height = 2 ∨ height = 3 ∨ height = 4 := by omega
  · exact small.1
  · exact small.2.1
  · exact small.2.2

/-- Three columns are enough from five rows on, since rounding keeps order. -/
theorem three_le_widthFor {height : Nat} (high : 5 ≤ height) (small : height < 2 ^ 32) : 3 ≤ widthFor height := by
  have finite : (Binary64.ofNat height).isFinite = true := Binary64.isFinite_ofNat (Nat.lt_trans small (by decide))
  have three : .ofNat 3 ≤ Binary64.ofNat 5 * cellAspect := by decide +kernel
  have wide : .ofNat 3 ≤ Binary64.ofNat height * cellAspect :=
    Binary64.le_trans three (Binary64.mul_le_mul_right (Binary64.ofNat_le_ofNat high) (Binary64.negative_ofNat 5)
      (Binary64.negative_ofNat height) finite (by decide) (by decide))
  exact Nat.le_trans (Binary64.le_toUInt32 (by decide) (by decide)
    (Binary64.ofNat_le_rounded (by decide) (by decide) wide)) (Nat.le_max_left ..)

theorem three_le_cellWidth_iff (g : Geometry) : 3 ≤ cellWidth g ↔ 90 ≤ g.areaHeight.toNat := by
  have below := g.areaHeight.toNat_lt
  have isHeight : lineHeight g = max (g.areaHeight.toNat / 18) 2 := rfl
  show 3 ≤ widthFor (lineHeight g) ↔ _
  constructor
  · intro wide
    by_contra low
    have narrow := widthFor_le (lineHeight g) (two_le_lineHeight g) (by omega)
    omega
  · intro high
    exact three_le_widthFor (by omega) (by omega)

/-! ## Ink -/

/-- A pixel of the part is covered in its cell of this number. -/
def InksCell (g : Geometry) (p : Part) (i : Nat) : Prop :=
  ∃ x y, i * cellWidth g ≤ x ∧ x < (i + 1) * cellWidth g ∧ y < p.height.toNat ∧
    p.bitmap[y * p.stride.toNat + x]? = some 255

theorem ink_eq_iff {cell d : Nat} : ink cell d c = 255 ↔ Text.isBlank c = false ∧ 1 ≤ d ∧ d + 1 < cell := by
  unfold ink
  split
  · next inked => simpa using inked
  · next clear => simpa using clear

/-- The cell of a visible character has ink if it is three pixels wide. No other has. -/
theorem inksCell_iff (partOf : PartOf g color top numbered p) (present : (kept g numbered.1)[i]? = some c) :
    InksCell g p i ↔ Text.isBlank c = false ∧ 3 ≤ cellWidth g := by
  have pixel : ∀ d y, d < cellWidth g → y < lineHeight g →
      p.bitmap[y * p.stride.toNat + (i * cellWidth g + d)]? = some (if lineHeight g / 6 ≤ y ∧
        y + lineHeight g / 6 < lineHeight g then ink (cellWidth g) d c else 0) := by
    intro d y inside within
    rw [partOf.bitmap, partOf.stride, partOf.width]
    exact getElem?_lineCoverage present inside within
  constructor
  · rintro ⟨x, y, left, right, within, covered⟩
    rw [Nat.succ_mul] at right
    obtain ⟨d, rfl⟩ : ∃ d, x = i * cellWidth g + d := ⟨x - i * cellWidth g, by omega⟩
    rw [pixel d y (by omega) (partOf.height ▸ within), Option.some_inj] at covered
    split at covered
    · obtain ⟨visible, first, last⟩ := ink_eq_iff.1 covered
      exact ⟨visible, by omega⟩
    · exact absurd covered (by decide)
  · rintro ⟨visible, wide⟩
    have high := two_le_lineHeight g
    refine ⟨i * cellWidth g + 1, lineHeight g / 6, by omega, by rw [Nat.succ_mul]; omega, ?_, ?_⟩
    · rw [partOf.height]
      omega
    · rw [pixel 1 _ (by omega) (by omega), if_pos (by omega), ink_eq_iff.2 ⟨visible, by omega, by omega⟩]

/-- Every line with characters has a part, with a cell for each character that fits. From a video height of 90
pixels on, just the cells of visible characters have ink. Below that none has. -/
theorem inksCell_iff_visible (laid : parts g atTop color lines = .ok ps) :
    List.Forall₂ (fun line p => p.width.toNat = cellWidth g * (kept g line).length ∧
      ∀ i c, (kept g line)[i]? = some c →
        (InksCell g p i ↔ Text.isBlank c = false ∧ 90 ≤ g.areaHeight.toNat)) (lines.filter (· ≠ [])) ps := by
  refine (parts_of_lines laid).imp fun line p => ?_
  rintro ⟨top, row, partOf⟩
  refine ⟨partOf.width, fun i c present => ?_⟩
  rw [inksCell_iff partOf present, three_le_cellWidth_iff]

/-- The layout of a short line for an output of this height. -/
def shortLine (height : UInt32) : Except Fault (List Part) :=
  parts { width := 160, height } false .white [['o', ' ', 'k']]

/-- In the smallest video with ink, a cell is three pixels wide and has one column of it. -/
theorem inksCell_iff_visible_shortLine :
    ∃ p : Part, shortLine 90 = .ok [p] ∧ p.width.toNat = 9 ∧ InksCell { width := 160, height := 90 } p 0 ∧
      ¬ InksCell { width := 160, height := 90 } p 1 ∧ InksCell { width := 160, height := 90 } p 2 := by
  obtain ⟨ps, laid⟩ := exists_ok (x := shortLine 90) (by decide +kernel)
  have inked := inksCell_iff_visible laid
  rw [List.filter_cons_of_pos (by decide), List.filter_nil] at inked
  obtain ⟨p, rest, ⟨width, here⟩, none, rfl⟩ := List.forall₂_cons_left_iff.1 inked
  obtain rfl := List.forall₂_nil_left_iff.1 none
  have all : kept { width := 160, height := 90 } ['o', ' ', 'k'] = ['o', ' ', 'k'] := by decide +kernel
  have cells : cellWidth { width := 160, height := 90 } = 3 := by decide +kernel
  have high : 90 ≤ (Geometry.areaHeight { width := 160, height := 90 }).toNat := by decide +kernel
  rw [all] at width here
  rw [cells] at width
  refine ⟨p, laid, width, (here 0 'o' rfl).2 ⟨by decide, high⟩, fun inks => ?_, (here 2 'k' rfl).2 ⟨by decide, high⟩⟩
  exact absurd ((here 1 ' ' rfl).1 inks).1 (by decide)

/-- One pixel less, and nothing is seen of the line. -/
theorem no_ink_below_ninety :
    ¬ ∀ (g : Geometry) (atTop : Bool) (color : Color) (lines : List (List Char)) (ps : List Part),
      g.isVoid = false → parts g atTop color lines = .ok ps →
      List.Forall₂ (fun line p => ∀ i c, (kept g line)[i]? = some c → Text.isBlank c = false → InksCell g p i)
        (lines.filter (· ≠ [])) ps := by
  intro inked
  obtain ⟨ps, laid⟩ := exists_ok (x := shortLine 89) (by decide +kernel)
  have all := inked _ _ _ _ ps rfl laid
  have partsOf := parts_of_lines laid
  rw [List.filter_cons_of_pos (by decide), List.filter_nil] at all partsOf
  obtain ⟨p, rest, here, -, rfl⟩ := List.forall₂_cons_left_iff.1 all
  obtain ⟨⟨top, row, partOf⟩, -⟩ := List.forall₂_cons.1 partsOf
  have first : (kept { width := 160, height := 89 } ['o', ' ', 'k'])[0]? = some 'o' := by decide +kernel
  obtain ⟨-, wide⟩ := (inksCell_iff partOf first).1 (here 0 'o' first (by decide))
  exact absurd wide (by decide +kernel)

end TextLayout
end Subtitles
