/-
# Proofs.TextBackend.Placement: what a layout that ends looks like

There is one part a line, in order. `LaidOut` says what the part of a line is, apart from its height on the
output: its sizes, that it lies inside an output that is wide enough for it, and each byte of its coverage.
Its top edge is that of its line, cut to a 32-bit word. While the words hold the edges, the parts stand
right below one another, so that no two overlap (`layout_wellFormed`).
-/
import Subtitles.Proofs.TextBackend.Layout
namespace Subtitles

set_option autoImplicit false

/-- A position that 32 signed bits hold. -/
def InWord (i : Int) : Prop := -0x80000000 ≤ i ∧ i < 0x80000000

theorem InWord.toInt_ofInt {i : Int} (fits : InWord i) : (Int32.ofInt i).toInt = i :=
  Int32.toInt_ofInt_of_le fits.1 fits.2

namespace TextLayout

variable {g : Geometry} {color : Color} {atTop : Bool} {top : Int} {row : Nat} {chars : List Char}
  {lines : List (List Char)} {ps : List Part} {p q : Part}

/-! ## One line -/

/-- The part shows those of the characters of a line that fit. -/
structure LaidOut (g : Geometry) (chars : List Char) (p : Part) : Prop where
  height : p.height.toNat = lineHeight g
  width : p.width.toNat = cellWidth g * min chars.length (max (g.width.toNat / cellWidth g) 1)
  stride : p.stride.toNat = p.width.toNat
  displayWidth : p.displayWidth = p.width
  displayHeight : p.displayHeight = p.height
  size : p.bitmap.size = p.width.toNat * p.height.toNat
  inside : p.width.toNat ≤ g.width.toNat → 0 ≤ p.x.toInt ∧ p.x.toInt + p.width.toNat ≤ g.width.toNat
  /-- A byte is 255 inside the cells of visible characters, a sixth of the height from the edges, and 0 elsewhere. -/
  coverage : ∀ x y, x < p.width.toNat → y < p.height.toNat → ∃ c, chars[x / cellWidth g]? = some c ∧
    p.bitmap[y * p.width.toNat + x]? = some
      (if Text.isBlank c = false ∧ 1 ≤ x % cellWidth g ∧ x % cellWidth g < cellWidth g - 1 ∧
          lineHeight g / 6 ≤ y ∧ y < lineHeight g - lineHeight g / 6 then 255 else 0)

/-- A part not wider than the output is centred on it. -/
theorem PartOf.inside {numbered : List Char × Nat} (partOf : PartOf g color top numbered p)
    (narrow : g.width.toNat < 0x80000000) (fits : p.width.toNat ≤ g.width.toNat) :
    0 ≤ p.x.toInt ∧ p.x.toInt + p.width.toNat ≤ g.width.toNat := by
  have half : ((g.width.toNat : Int) - p.width.toNat).tdiv 2 = (g.width.toNat - p.width.toNat) / 2 :=
    Int.tdiv_eq_ediv_of_nonneg (by omega)
  have word : InWord (((g.width.toNat : Int) - p.width.toNat).tdiv 2) := by
    rw [half]
    constructor <;> omega
  have place : p.x.toInt = (g.width.toNat - p.width.toNat) / 2 := by
    rw [partOf.x, word.toInt_ofInt, half]
  rw [place]
  constructor <;> omega

theorem PartOf.coverage (partOf : PartOf g color top (chars, row) p) {x y : Nat} (inside : x < p.width.toNat)
    (within : y < p.height.toNat) : ∃ c, chars[x / cellWidth g]? = some c ∧
      p.bitmap[y * p.width.toNat + x]? = some
        (if Text.isBlank c = false ∧ 1 ≤ x % cellWidth g ∧ x % cellWidth g < cellWidth g - 1 ∧
            lineHeight g / 6 ≤ y ∧ y < lineHeight g - lineHeight g / 6 then 255 else 0) := by
  have isWidth : p.width.toNat = cellWidth g * (kept g chars).length := partOf.width
  have number : x / cellWidth g < (kept g chars).length := Nat.div_lt_of_lt_mul (isWidth ▸ inside)
  have column : x % cellWidth g < cellWidth g := Nat.mod_lt _ (cellWidth_pos g)
  have place : x = x / cellWidth g * cellWidth g + x % cellWidth g := (Nat.div_add_mod' _ _).symm
  have present := List.getElem?_eq_getElem number
  refine ⟨(kept g chars)[x / cellWidth g], ?_, ?_⟩
  · rw [← present, kept, List.getElem?_take_of_lt]
    rw [kept, List.length_take] at number
    omega
  · have pixel := getElem?_lineCoverage present column (partOf.height ▸ within)
    rw [← place, ← isWidth, ← partOf.bitmap] at pixel
    rw [pixel, ink]
    congr 1
    -- The two tests are one: the cell says which columns have ink, the line which rows.
    by_cases rows : lineHeight g / 6 ≤ y ∧ y + lineHeight g / 6 < lineHeight g
    · rw [if_pos rows]
      refine if_congr ?_ rfl rfl
      simp only [Bool.and_eq_true, Bool.not_eq_true', decide_eq_true_eq]
      refine and_congr_right fun _ => ?_
      omega
    · rw [if_neg rows, if_neg]
      rintro ⟨-, -, -, upper, lower⟩
      omega

theorem PartOf.laidOut (partOf : PartOf g color top (chars, row) p) (narrow : g.width.toNat < 0x80000000) :
    LaidOut g chars p where
  height := partOf.height
  width := by rw [partOf.width, kept, List.length_take, Nat.min_comm, lineCapacity]
  stride := partOf.stride
  displayWidth := partOf.displayWidth
  displayHeight := partOf.displayHeight
  size := partOf.size
  inside := partOf.inside narrow
  coverage _ _ := partOf.coverage

/-! ## All lines -/

/-- Where all lines have characters, the part of a line has its number. -/
theorem parts_numbered (laid : parts g atTop color lines = .ok ps) (filled : ∀ line ∈ lines, line ≠ []) :
    ps.length = lines.length ∧ ∀ row line p, lines[row]? = some line → ps[row]? = some p →
      PartOf g color (blockEdge g atTop (blockHeight g lines.length)) (line, row) p := by
  have all : lines.zipIdx.filter (·.1 ≠ []) = lines.zipIdx := by
    refine List.filter_eq_self.2 fun numbered member => ?_
    simpa using filled numbered.1 (List.fst_mem_of_mem_zipIdx member)
  have partsOf := parts_ok laid
  rw [all, List.forall₂_iff_get] at partsOf
  obtain ⟨lengths, partsOf⟩ := partsOf
  rw [List.length_zipIdx] at lengths
  refine ⟨lengths.symm, fun row line p here there => ?_⟩
  obtain ⟨inLines, rfl⟩ := List.getElem?_eq_some_iff.1 here
  obtain ⟨inParts, rfl⟩ := List.getElem?_eq_some_iff.1 there
  have partOf := partsOf row (by simpa using inLines) inParts
  simpa using partOf

/-- The top edge of a part is that of its line while 32 bits hold it. -/
theorem PartOf.toInt_y {count : Nat} (partOf : PartOf g color (blockEdge g atTop (blockHeight g count)) (chars, row) p)
    (fits : InWord (lineTop g atTop count row)) : p.y.toInt = lineTop g atTop count row := by
  rw [partOf.y]
  exact fits.toInt_ofInt

/-- Lines further down have their edges further down, by the heights of the lines between. -/
theorem lineTop_add (g : Geometry) (atTop : Bool) (count row more : Nat) :
    lineTop g atTop count (row + more) = lineTop g atTop count row + (lineHeight g * more : Nat) := by
  simp only [lineTop, Nat.mul_add]
  omega

/-- A layout that ends has a part for each line, in order, with the sizes, the place and the coverage that the line
asks for. Where 32 bits hold the top edges of all lines, the parts stand right below one another without a gap. -/
theorem layout_wellFormed (laid : parts g atTop color lines = .ok ps) (narrow : g.width.toNat < 0x80000000)
    (filled : ∀ line ∈ lines, line ≠ []) :
    1 ≤ cellWidth g ∧ ps.length = lines.length ∧
    (∀ row line p, lines[row]? = some line → ps[row]? = some p →
      LaidOut g line p ∧ p.y = Int32.ofInt (lineTop g atTop lines.length row)) ∧
    ((∀ row < lines.length, InWord (lineTop g atTop lines.length row)) →
      (∀ (row : Nat) (p q : Part), ps[row]? = some p → ps[row + 1]? = some q →
        q.y.toInt = p.y.toInt + lineHeight g) ∧
      ps.Pairwise fun (p q : Part) => p.y.toInt + (p.displayHeight.toNat : Int) ≤ q.y.toInt) := by
  obtain ⟨lengths, partsOf⟩ := parts_numbered laid filled
  refine ⟨cellWidth_pos g, lengths, fun row line p here there => ?_, fun fit => ?_⟩
  · have partOf := partsOf row line p here there
    exact ⟨partOf.laidOut narrow, partOf.y⟩
  · have edge : ∀ row p, ps[row]? = some p → p.height.toNat = lineHeight g ∧ p.displayHeight = p.height ∧
        p.y.toInt = lineTop g atTop lines.length row := by
      intro row p there
      have below : row < lines.length := lengths ▸ (List.getElem?_eq_some_iff.1 there).1
      have partOf := partsOf row _ p (List.getElem?_eq_getElem below) there
      exact ⟨partOf.height, partOf.displayHeight, partOf.toInt_y (fit row below)⟩
    constructor
    · intro row p q here next
      rw [(edge row p here).2.2, (edge (row + 1) q next).2.2, lineTop_add, Nat.mul_one]
    · refine List.pairwise_iff_getElem.2 fun i j inI inJ before => ?_
      obtain ⟨height, shown, upper⟩ := edge i ps[i] (List.getElem?_eq_getElem inI)
      obtain ⟨-, -, lower⟩ := edge j ps[j] (List.getElem?_eq_getElem inJ)
      obtain ⟨more, rfl⟩ : ∃ more, j = i + (more + 1) := ⟨j - i - 1, by omega⟩
      rw [shown, height, upper, lower, lineTop_add, Nat.mul_succ]
      omega

/-- An output four cells wide. -/
def fourCells : Geometry := { width := 14, height := 90 }

/-- The first line is cut to its first four characters, the third of which is blank. -/
theorem layout_wellFormed_fourCells :
    ∃ p q : Part, parts fourCells false .white [['a', 'b', ' ', 'c', 'd'], ['e']] = .ok [p, q] ∧
      p.width.toNat = 12 ∧ (0 ≤ p.x.toInt ∧ p.x.toInt + 12 ≤ 14) ∧
      p.bitmap[1 * 12 + 7]? = some 0 ∧ p.bitmap[1 * 12 + 10]? = some 255 ∧ q.y.toInt = p.y.toInt + 5 := by
  obtain ⟨ps, laid⟩ := exists_ok (x := parts fourCells false .white [['a', 'b', ' ', 'c', 'd'], ['e']])
    (by decide +kernel)
  obtain ⟨-, lengths, lines, stacked⟩ := layout_wellFormed laid (by decide) (by decide)
  obtain ⟨p, q, rfl⟩ := List.length_eq_two.1 lengths
  have cells : cellWidth fourCells = 3 := by decide +kernel
  have high : lineHeight fourCells = 5 := by decide +kernel
  obtain ⟨laidOut, -⟩ := lines 0 _ p rfl rfl
  have wide : p.width.toNat = 12 := by
    rw [laidOut.width, cells]
    rfl
  have tall : p.height.toNat = 5 := laidOut.height.trans high
  have pixels := laidOut.coverage
  rw [cells, high, wide, tall] at pixels
  obtain ⟨c, third, clear⟩ := pixels 7 1 (by decide) (by decide)
  obtain rfl : ' ' = c := Option.some.inj third
  obtain ⟨c, fourth, inked⟩ := pixels 10 1 (by decide) (by decide)
  obtain rfl : 'c' = c := Option.some.inj fourth
  have fit : ∀ row < 2, InWord (lineTop fourCells false 2 row) := by
    unfold InWord
    decide +kernel
  have below := (stacked fit).1 0 p q rfl rfl
  rw [high] at below
  have inside := laidOut.inside
  rw [wide] at inside
  exact ⟨p, q, laid, wide, inside (by decide), clear, inked, below⟩

end TextLayout
end Subtitles
