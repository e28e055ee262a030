/-
# Proofs.TextBackend.Layout: a line as a part

A layout that ends has a part for each line that has characters, in order (`parts_ok`). `PartOf` says
all there is to say of such a part: its place, its size, its colour, and that its coverage is that of
the characters of the line that fit. Coverage is told pixel by pixel (`getElem?_lineCoverage`). The edges
of a block and of its lines are told apart from the words they are computed in (`blockEdge`, `lineTop`); each
step towards the edge of a block goes down, so only the edge itself has to fit (`blockTop_eq_ok_iff`).
-/
import Mathlib.Data.List.Forall2
import Subtitles.Proofs.Canvas
import Subtitles.Proofs.TextBackend.Drawing
namespace Subtitles

set_option autoImplicit false

theorem mulLength_eq_ok_iff {a b n : Nat} : mulLength a b = .ok n ↔ a * b < 0x100000000 ∧ a * b = n := by
  unfold mulLength
  split
  · next small => simp [small]
  · next large => simp [large]

theorem isPosition_iff {i : Int} : isPosition i = true ↔ -0x8000000000000000 ≤ i ∧ i < 0x8000000000000000 :=
  decide_eq_true_iff

theorem position_eq_ok_iff {op : Operation} {i j : Int} :
    position op i = .ok j ↔ isPosition i = true ∧ i = j := by
  unfold position
  split
  · next within => simp [within]
  · next beyond => simp [beyond]

namespace TextLayout

variable {g : Geometry} {color : Color} {atTop : Bool} {top : Int} {row : Nat} {line : List Char}
  {lines : List (List Char)} {ps : List Part}

/-! ## Sizes -/

theorem cellWidth_pos (g : Geometry) : 0 < cellWidth g := Nat.le_max_right ..

theorem lineCapacity_pos (g : Geometry) : 0 < lineCapacity g := Nat.le_max_right ..

theorem two_le_lineHeight (g : Geometry) : 2 ≤ lineHeight g := Nat.le_max_right ..

/-- The characters of a line that fit. -/
def kept (g : Geometry) (line : List Char) : List Char := line.take (lineCapacity g)

/-- Of a line with characters, one fits at least. -/
theorem kept_eq_nil : kept g line = [] ↔ line = [] := by
  rw [kept, List.take_eq_nil_iff]
  exact or_iff_right (Nat.ne_of_gt (lineCapacity_pos g))

/-! ## Edges -/

/-- The height of a block of so many lines, their number taken as a 32-bit word. -/
def blockHeight (g : Geometry) (count : Nat) : Nat := lineHeight g * (UInt32.ofNat count).toNat

/-- The top edge of a block of some height, as an integer of any size. -/
def blockEdge (g : Geometry) (atTop : Bool) (height : Nat) : Int :=
  let half : Int := (lineHeight g / 2 : Nat)
  if atTop then g.margins.top.atLeastZero.toInt64Value + half
  else g.height.toNat - g.margins.bottom.atLeastZero.toInt64Value - half - height

/-- The top edge of a line of a block of so many lines, as an integer of any size. -/
def lineTop (g : Geometry) (atTop : Bool) (count row : Nat) : Int :=
  blockEdge g atTop (blockHeight g count) + (lineHeight g * row : Nat)

/-- The edge of a block is found unless it lies beyond 64 bits itself: each step towards it goes down. -/
theorem blockTop_eq_ok_iff {height : Nat} :
    blockTop g atTop height = .ok top ↔ isPosition (blockEdge g atTop height) = true ∧ blockEdge g atTop height = top := by
  cases atTop with
  | true => exact position_eq_ok_iff
  | false =>
      constructor
      · intro found
        obtain ⟨above, first, found⟩ := bind_eq_ok_iff.1 found
        obtain ⟨-, rfl⟩ := position_eq_ok_iff.1 first
        obtain ⟨middle, second, found⟩ := bind_eq_ok_iff.1 found
        obtain ⟨-, rfl⟩ := position_eq_ok_iff.1 second
        exact position_eq_ok_iff.1 found
      · rintro ⟨within, rfl⟩
        have margin : 0 ≤ g.margins.bottom.atLeastZero.toInt64Value :=
          Binary64.clampTo_atLeastZero_nonneg _ _ (by decide)
        have output := g.height.toNat_lt
        rw [isPosition_iff, blockEdge, if_neg Bool.false_ne_true] at within
        have first : isPosition (g.height.toNat - g.margins.bottom.atLeastZero.toInt64Value) = true :=
          isPosition_iff.2 (by omega)
        have second : isPosition (g.height.toNat - g.margins.bottom.atLeastZero.toInt64Value -
            (lineHeight g / 2 : Nat)) = true :=
          isPosition_iff.2 (by omega)
        refine bind_eq_ok_iff.2 ⟨_, position_eq_ok_iff.2 ⟨first, rfl⟩, ?_⟩
        refine bind_eq_ok_iff.2 ⟨_, position_eq_ok_iff.2 ⟨second, rfl⟩, ?_⟩
        exact position_eq_ok_iff.2 ⟨isPosition_iff.2 within, rfl⟩

/-! ## Parts -/

/-- The part of a line with a number, below a top edge. -/
structure PartOf (g : Geometry) (color : Color) (top : Int) (line : List Char × Nat) (p : Part) : Prop where
  x : p.x = Int32.ofInt (((g.width.toNat : Int) - p.width.toNat).tdiv 2)
  y : p.y = Int32.ofInt (top + (lineHeight g * line.2 : Nat))
  width : p.width.toNat = cellWidth g * (kept g line.1).length
  height : p.height.toNat = lineHeight g
  displayWidth : p.displayWidth = p.width
  displayHeight : p.displayHeight = p.height
  stride : p.stride.toNat = p.width.toNat
  color : p.color = color
  bitmap : p.bitmap = lineCoverage (lineHeight g) (cellWidth g) (kept g line.1)

theorem linePart_ok {part : Option Part} (laid : linePart g color top row line = .ok part) :
    (line = [] ∧ part = none) ∨ (line ≠ [] ∧ ∃ p, part = some p ∧ PartOf g color top (line, row) p) := by
  obtain ⟨width, wide, laid⟩ := bind_eq_ok_iff.1 laid
  obtain ⟨narrow, isWidth⟩ := mulLength_eq_ok_iff.1 wide
  rw [isWidth] at narrow
  split at laid
  · next zero =>
      rw [← isWidth, Nat.mul_eq_zero] at zero
      have none : kept g line = [] :=
        List.length_eq_zero_iff.1 (zero.resolve_left (Nat.ne_of_gt (cellWidth_pos g)))
      exact .inl ⟨kept_eq_nil.1 none, (Except.ok.inj laid).symm⟩
  · next some =>
      obtain ⟨size, large, laid⟩ := bind_eq_ok_iff.1 laid
      obtain ⟨offset, below, laid⟩ := bind_eq_ok_iff.1 laid
      obtain ⟨y, low, laid⟩ := bind_eq_ok_iff.1 laid
      obtain ⟨small, -⟩ := mulLength_eq_ok_iff.1 large
      obtain ⟨-, rfl⟩ := position_eq_ok_iff.1 below
      obtain ⟨-, rfl⟩ := position_eq_ok_iff.1 low
      obtain rfl := Except.ok.inj laid
      have flat : lineHeight g < 0x100000000 :=
        Nat.lt_of_le_of_lt (Nat.le_mul_of_pos_left _ (Nat.pos_of_ne_zero some)) small
      have width32 : (UInt32.ofNat width).toNat = width := UInt32.toNat_ofNat_of_lt' narrow
      refine .inr ⟨fun none => some ?_, _, rfl, ?_⟩
      · rw [← isWidth, none, List.take_nil, List.length_nil, Nat.mul_zero]
      · exact {
          x := by rw [width32]
          y := rfl
          width := width32.trans isWidth.symm
          height := UInt32.toNat_ofNat_of_lt' flat
          displayWidth := rfl
          displayHeight := rfl
          stride := (UInt64.toNat_ofNat_of_lt' (Nat.lt_trans narrow (by decide))).trans width32.symm
          color := rfl
          bitmap := rfl }

theorem partsFrom_ok (laid : partsFrom g color top row lines = .ok ps) :
    List.Forall₂ (PartOf g color top) ((lines.zipIdx row).filter (·.1 ≠ [])) ps := by
  induction lines generalizing row ps with
  | nil =>
      obtain rfl := Except.ok.inj laid
      exact .nil
  | cons line rest ih =>
      obtain ⟨part, first, laid⟩ := bind_eq_ok_iff.1 laid
      obtain ⟨parts, others, laid⟩ := bind_eq_ok_iff.1 laid
      obtain rfl := Except.ok.inj laid
      rw [List.zipIdx_cons]
      obtain ⟨rfl, rfl⟩ | ⟨some, p, rfl, partOf⟩ := linePart_ok first
      · rw [List.filter_cons_of_neg (by simp)]
        exact ih others
      · rw [List.filter_cons_of_pos (by simpa using some)]
        exact .cons partOf (ih others)

/-- The lines that have characters have parts, in order. -/
theorem parts_ok (laid : parts g atTop color lines = .ok ps) :
    List.Forall₂ (PartOf g color (blockEdge g atTop (blockHeight g lines.length)))
      (lines.zipIdx.filter (·.1 ≠ [])) ps := by
  obtain ⟨height, high, laid⟩ := bind_eq_ok_iff.1 laid
  obtain ⟨top, edge, laid⟩ := bind_eq_ok_iff.1 laid
  obtain ⟨-, rfl⟩ := mulLength_eq_ok_iff.1 high
  obtain ⟨-, rfl⟩ := blockTop_eq_ok_iff.1 edge
  exact partsFrom_ok laid

/-- The same without the numbers of the lines. -/
theorem parts_of_lines (laid : parts g atTop color lines = .ok ps) :
    List.Forall₂ (fun line p => ∃ top row, PartOf g color top (line, row) p) (lines.filter (· ≠ [])) ps := by
  have unnumbered : lines.filter (· ≠ []) = (lines.zipIdx.filter (·.1 ≠ [])).map Prod.fst := by
    conv_lhs => rw [← List.zipIdx_map_fst 0 lines, List.filter_map]
    rfl
  rw [unnumbered, List.forall₂_map_left_iff]
  exact (parts_ok laid).imp fun numbered p partOf => ⟨_, numbered.2, partOf⟩

theorem parts_eq_nil_iff (laid : parts g atTop color lines = .ok ps) : ps = [] ↔ ∀ line ∈ lines, line = [] := by
  rw [← List.length_eq_zero_iff, ← (parts_of_lines laid).length_eq, List.length_eq_zero_iff, List.filter_eq_nil_iff]
  simp

/-! ## Coverage -/

variable {cell height i d y : Nat} {chars : List Char} {c : Char}

/-- The coverage of a pixel of a row through the characters. -/
def ink (cell d : Nat) (c : Char) : UInt8 := if !Text.isBlank c && decide (1 ≤ d ∧ d + 1 < cell) then 255 else 0

theorem toList_inkRow (cell : Nat) (chars : List Char) :
    (inkRow cell chars).toList = (chars.map fun c => (cellRow cell (!Text.isBlank c)).toList).flatten := by
  have appended : ∀ row : Bytes, (chars.foldl (fun row c => row ++ cellRow cell (!Text.isBlank c)) row).toList =
      row.toList ++ (chars.map fun c => (cellRow cell (!Text.isBlank c)).toList).flatten := by
    induction chars with
    | nil => simp
    | cons c chars ih => simp [ih]
  exact appended #[]

theorem length_of_mem_cells :
    ∀ row ∈ chars.map fun c => (cellRow cell (!Text.isBlank c)).toList, row.length = cell := by
  intro row member
  obtain ⟨c, -, rfl⟩ := List.mem_map.1 member
  simp [cellRow]

theorem size_inkRow (cell : Nat) (chars : List Char) : (inkRow cell chars).size = cell * chars.length := by
  rw [← Array.length_toList, toList_inkRow, length_flatten_of_length length_of_mem_cells, List.length_map, Nat.mul_comm]

theorem getElem?_inkRow (chars : List Char) (i : Nat) (inside : d < cell) :
    (inkRow cell chars)[i * cell + d]? = chars[i]?.map (ink cell d) := by
  rw [← Array.getElem?_toList, toList_inkRow, getElem?_flatten_of_length length_of_mem_cells i inside,
    List.getElem?_map, Option.bind_map, Option.map_eq_bind]
  refine congrArg _ (funext fun c => ?_)
  simp [cellRow, ink, inside]

/-- The rows of a line from top to bottom. -/
def coverageRows (height cell : Nat) (chars : List Char) : List (List UInt8) :=
  List.replicate (height / 6) (List.replicate (cell * chars.length) 0) ++
    (List.replicate (height - 2 * (height / 6)) (inkRow cell chars).toList ++
      List.replicate (height / 6) (List.replicate (cell * chars.length) 0))

theorem toList_lineCoverage (height cell : Nat) (chars : List Char) :
    (lineCoverage height cell chars).toList = (coverageRows height cell chars).flatten := by
  simp [lineCoverage, stacked, coverageRows]

theorem length_of_mem_coverageRows : ∀ row ∈ coverageRows height cell chars, row.length = cell * chars.length := by
  intro row member
  simp only [coverageRows, List.mem_append, List.mem_replicate] at member
  rcases member with ⟨-, rfl⟩ | ⟨-, rfl⟩ | ⟨-, rfl⟩
  · exact List.length_replicate
  · exact size_inkRow cell chars
  · exact List.length_replicate

theorem size_lineCoverage (height cell : Nat) (chars : List Char) :
    (lineCoverage height cell chars).size = height * (cell * chars.length) := by
  have rows : (coverageRows height cell chars).length = height := by
    simp only [coverageRows, List.length_append, List.length_replicate]
    omega
  rw [← Array.length_toList, toList_lineCoverage, length_flatten_of_length length_of_mem_coverageRows, rows]

theorem PartOf.size {numbered : List Char × Nat} {p : Part} (partOf : PartOf g color top numbered p) :
    p.bitmap.size = p.width.toNat * p.height.toNat := by
  rw [partOf.bitmap, size_lineCoverage, partOf.height, partOf.width, Nat.mul_comm]

/-- The pixels of a line: those inside the cells of visible characters, without a margin above and below. -/
theorem getElem?_lineCoverage (present : chars[i]? = some c) (inside : d < cell) (within : y < height) :
    (lineCoverage height cell chars)[y * (cell * chars.length) + (i * cell + d)]? =
      some (if height / 6 ≤ y ∧ y + height / 6 < height then ink cell d c else 0) := by
  have column : i * cell + d < cell * chars.length := index_lt inside (List.getElem?_eq_some_iff.1 present).1
  have inked : (inkRow cell chars).toList[i * cell + d]? = some (ink cell d c) := by
    rw [Array.getElem?_toList, getElem?_inkRow chars i inside, present, Option.map_some]
  have clear : (List.replicate (cell * chars.length) (0 : UInt8))[i * cell + d]? = some 0 := by
    rw [List.getElem?_replicate, if_pos column]
  rw [← Array.getElem?_toList, toList_lineCoverage, getElem?_flatten_of_length length_of_mem_coverageRows y column,
    coverageRows]
  rcases Nat.lt_or_ge y (height / 6) with above | below
  · rw [List.getElem?_append_left (by simpa using above), List.getElem?_replicate, if_pos above, Option.bind_some,
      clear, if_neg (by omega)]
  · rw [List.getElem?_append_right (by simpa using below), List.length_replicate]
    rcases Nat.lt_or_ge (y + height / 6) height with middle | margin
    · rw [List.getElem?_append_left (by rw [List.length_replicate]; omega), List.getElem?_replicate,
        if_pos (by omega), Option.bind_some, inked, if_pos ⟨below, middle⟩]
    · rw [List.getElem?_append_right (by rw [List.length_replicate]; omega), List.getElem?_replicate,
        if_pos (by rw [List.length_replicate]; omega), Option.bind_some, clear, if_neg (by omega)]

end TextLayout
end Subtitles
