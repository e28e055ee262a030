/-
# Proofs.Part: the rows of a bitmap

The rows of a part are consecutive stretches of its bitmap, a stride long each. A row that begins inside the
bitmap but does not fit is cut at its end, and one that begins behind it has no bytes (`row_eq`). Offsets
that saturate lie behind any bitmap, so nothing of this depends on whether they do. So rows tile: the first of
them, one after another, are the beginning of the bitmap (`firstRows_eq`).
-/
import Subtitles.Part
import Mathlib.Data.List.Basic
namespace Subtitles

set_option autoImplicit false

namespace Part

variable {p : Part} {x y : Int32} {width height : UInt32} {color : Color} {coverage : Bytes}

/-- The bytes of the first `n` rows, one row after another. -/
def firstRows (p : Part) (n : Nat) : List UInt8 := (List.range n).flatMap fun r => (p.row (UInt32.ofNat r)).toList

theorem row?_eq_row (p : Part) (r : UInt32) : p.row? r = some (p.row r) := (Option.some_get _).symm

/-- A row is a stride of bytes from its offset on, as far as the bitmap reaches. -/
theorem row_eq (fits : p.bitmap.size ≤ maxLength) (r : UInt32) :
    p.row r = p.bitmap.extract (r.toNat * p.stride.toNat) (r.toNat * p.stride.toNat + p.stride.toNat) := by
  have slice := p.row?_eq_row r
  rw [row?, Bytes.slice?, if_pos ⟨Nat.min_le_right _ _, Nat.min_le_right _ _⟩] at slice
  rw [← Option.some.inj slice]
  generalize r.toNat * p.stride.toNat = start
  apply Array.ext_getElem?
  intro i
  rw [Array.getElem?_extract, Array.getElem?_extract]
  by_cases inside : start ≤ p.bitmap.size
  · -- The start is in the bitmap, so it did not saturate, and the stop saturates behind the end only.
    have first : min (min start maxLength)
        (min (min (min start maxLength + p.stride.toNat) maxLength) p.bitmap.size) = start := by omega
    rw [first]
    exact if_congr (by omega) rfl rfl
  · rw [if_neg (by omega), if_neg (by omega)]

theorem getElem?_row (fits : p.bitmap.size ≤ maxLength) (r : UInt32) (i : Nat) :
    (p.row r)[i]? = if i < p.stride.toNat then p.bitmap[r.toNat * p.stride.toNat + i]? else none := by
  rw [row_eq fits, Array.getElem?_extract]
  by_cases inside : r.toNat * p.stride.toNat + i < p.bitmap.size
  · exact if_congr (by omega) rfl rfl
  · rw [if_neg (by omega), Array.getElem?_eq_none (Nat.le_of_not_lt inside), ite_self]

/-- The rows before one, and then its own bytes: the induction is on the number of rows. -/
theorem firstRows_eq (fits : p.bitmap.size ≤ maxLength) {n : Nat} (numbered : n ≤ UInt32.size) :
    p.firstRows n = p.bitmap.toList.take (n * p.stride.toNat) := by
  induction n with
  | zero => simp [firstRows]
  | succ n ih =>
      have number : (UInt32.ofNat n).toNat = n := UInt32.toNat_ofNat_of_lt' numbered
      have last : (p.row (UInt32.ofNat n)).toList =
          (p.bitmap.toList.drop (n * p.stride.toNat)).take p.stride.toNat := by
        rw [row_eq fits, number, Array.toList_extract, List.extract_eq_take_drop, Nat.add_sub_cancel_left]
      calc p.firstRows (n + 1) = p.firstRows n ++ (p.row (UInt32.ofNat n)).toList := by
            simp [firstRows, List.range_succ]
        _ = p.bitmap.toList.take (n * p.stride.toNat + p.stride.toNat) := by
            rw [ih (by omega), last, List.take_add]
        _ = p.bitmap.toList.take ((n + 1) * p.stride.toNat) := by rw [Nat.succ_mul]

/-! ## Tightly packed parts -/

/-- Coverage is taken as a bitmap if it has a byte for each pixel. No two sides are so long that it would not fit. -/
theorem packed_of_ofCoverage? (made : ofCoverage? x y width height color coverage = .ok p) :
    p.stride.toNat = width.toNat ∧ p.bitmap = coverage ∧ p.bitmap.size = height.toNat * width.toNat ∧
      p.bitmap.size ≤ maxLength := by
  have area : width.toNat * height.toNat ≤ 0xffffffff * 0xffffffff :=
    Nat.mul_le_mul (Nat.le_of_lt_succ width.toNat_lt) (Nat.le_of_lt_succ height.toNat_lt)
  have small : width.toNat * height.toNat ≤ maxLength := Nat.le_trans area (by decide)
  rw [ofCoverage?, Nat.min_eq_left small] at made
  split at made
  · next full =>
    obtain rfl := Except.ok.inj made
    exact ⟨UInt32.toNat_toUInt64 _, rfl, Nat.mul_comm _ _ ▸ full, full ▸ small⟩
  · cases made

end Part

/-- A row is always a slice of the bitmap: the bytes of a stride from its offset on, as far as there are any, even
where offsets saturate. So the first rows together are the beginning of the bitmap. A part made from coverage has
rows as long as its width, and they are its coverage. -/
theorem rows_tile :
    (∀ (p : Part) (r : UInt32), p.row? r = some (p.row r)) ∧
    (∀ p : Part, p.bitmap.size ≤ maxLength →
      (∀ (r : UInt32) (i : Nat),
        (p.row r)[i]? = if i < p.stride.toNat then p.bitmap[r.toNat * p.stride.toNat + i]? else none) ∧
      ∀ n : Nat, n ≤ UInt32.size →
        p.firstRows n = p.bitmap.toList.take (min (n * p.stride.toNat) p.bitmap.size)) ∧
    ∀ (x y : Int32) (width height : UInt32) (color : Color) (coverage : Bytes) (p : Part),
      Part.ofCoverage? x y width height color coverage = .ok p →
      (∀ r : UInt32, r < height → (p.row r).size = width.toNat) ∧ p.firstRows height.toNat = coverage.toList := by
  refine ⟨Part.row?_eq_row, fun p fits => ⟨Part.getElem?_row fits, fun n numbered => ?_⟩,
    fun x y width height color coverage p made => ?_⟩
  · rw [Part.firstRows_eq fits numbered, List.take_eq_take_iff, Array.length_toList]
    omega
  · obtain ⟨stride, rfl, full, fits⟩ := Part.packed_of_ofCoverage? made
    constructor
    · intro r below
      have inside : (r.toNat + 1) * width.toNat ≤ p.bitmap.size := full ▸ Nat.mul_le_mul_right _ below
      rw [Part.row_eq fits, Array.size_extract, stride]
      rw [Nat.succ_mul] at inside
      omega
    · rw [Part.firstRows_eq fits (Nat.le_of_lt height.toNat_lt), stride, ← full]
      exact List.take_of_length_le (by simp)

/-- Rows of which the last is cut, a row whose offsets saturate, and rows of coverage. -/
theorem rows_tile_threeBytes :
    let cut : Part := ⟨0, 0, 2, 2, 2, 2, 2, .white, #[7, 8, 9]⟩
    let far : Part := { cut with stride := 0xffffffffffffffff }
    let packed : Part := ⟨0, 0, 1, 3, 1, 3, 1, .white, #[7, 8, 9]⟩
    (cut.bitmap.size ≤ maxLength ∧ (cut.row 1)[0]? = some 9 ∧ (cut.row 1)[1]? = none ∧
        cut.firstRows 2 = [7, 8, 9]) ∧
      (far.bitmap.size ≤ maxLength ∧ far.row? 2 = some (far.row 2) ∧ (far.row 2)[0]? = none) ∧
      Part.ofCoverage? 0 0 1 3 .white #[7, 8, 9] = .ok packed ∧ (packed.row 2).size = 1 ∧
        packed.firstRows 3 = [7, 8, 9] := by
  intro cut far packed
  have small : cut.bitmap.size ≤ maxLength := by decide
  have made : Part.ofCoverage? 0 0 1 3 .white #[7, 8, 9] = .ok packed := rfl
  obtain ⟨bytes, tiles⟩ := rows_tile.2.1 cut small
  obtain ⟨lengths, whole⟩ := rows_tile.2.2 0 0 1 3 .white #[7, 8, 9] packed made
  refine ⟨⟨small, (bytes 1 0).trans (by decide), (bytes 1 1).trans (by decide), tiles 2 (by decide)⟩,
    ⟨small, rows_tile.1 far 2, ((rows_tile.2.1 far small).1 2 0).trans (by decide)⟩,
    made, lengths 2 (by decide), whole⟩

end Subtitles
