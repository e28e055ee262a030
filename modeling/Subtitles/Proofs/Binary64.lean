/-
# Proofs.Binary64: the order and the operations, with equal numbers in the place of each other

Equality of numbers is not identity of words, so what is the same number has to be moved
through `<` and `≤` by a lemma each. Through the operations goes a weaker relation: words are
`Alike` when they are one word or both zeros. The sum of alike words is alike, and integers made
of them are equal.
-/
import Subtitles.Binary64.Integer
namespace Subtitles

set_option autoImplicit false

namespace Binary64

variable {x y z : Binary64}

/-! ## The order -/

theorem Same.symm (same : x.Same y) : y.Same x := ⟨same.1.symm, same.2.symm⟩

theorem Same.trans (first : x.Same y) (second : y.Same z) : x.Same z :=
  ⟨⟨first.1.1, second.1.2⟩, first.2.trans second.2⟩

theorem lt_of_lt_of_same (before : x < y) (same : y.Same z) : x < z :=
  ⟨⟨before.1.1, same.1.2⟩, same.2 ▸ before.2⟩

theorem Same.le_iff (same : y.Same z) : x ≤ y ↔ x ≤ z := by
  rw [le_def, le_def, same.2]
  exact and_congr_left fun _ =>
    ⟨fun both => ⟨both.1, same.1.2⟩, fun both => ⟨both.1, same.1.1⟩⟩

theorem Same.lt_iff (same : x.Same y) : x < z ↔ y < z := by
  rw [lt_def, lt_def, same.2]
  exact and_congr_left fun _ =>
    ⟨fun both => ⟨same.1.2, both.2⟩, fun both => ⟨same.1.1, both.2⟩⟩

theorem le_trans (first : x ≤ y) (second : y ≤ z) : x ≤ z :=
  ⟨⟨first.1.1, second.1.2⟩, Int.le_trans first.2 second.2⟩

theorem lt_of_lt_of_le (first : x < y) (second : y ≤ z) : x < z :=
  ⟨⟨first.1.1, second.1.2⟩, Int.lt_of_lt_of_le first.2 second.2⟩

theorem not_le_of_lt (before : x < y) : ¬ y ≤ x :=
  fun after => Int.not_lt.2 after.2 before.2

theorem lt_of_not_le (comparable : x.Comparable y) (after : ¬ x ≤ y) : y < x :=
  ⟨comparable.symm, Int.not_le.1 fun le => after ⟨comparable, le⟩⟩

/-! ## Words that are alike -/

/-- One word, or both zeros. -/
def Alike (x y : Binary64) : Prop := x = y ∨ (x.magnitude = 0 ∧ y.magnitude = 0)

theorem Alike.refl (x : Binary64) : x.Alike x := .inl rfl

theorem magnitude_lt (x : Binary64) : x.magnitude < signBit :=
  Nat.mod_lt _ (by decide)

theorem magnitude_pack (negative : Bool) {n : Nat} (small : n < signBit) :
    (pack negative n).magnitude = n := by
  unfold pack magnitude signBit at *
  cases negative <;> simp only [UInt64.toNat_ofNat', if_true, Bool.false_eq_true, if_false] <;> omega

theorem negative_pack {n : Nat} (small : n < signBit) : (pack false n).negative = false := by
  unfold negative pack signBit at *
  simp only [Bool.false_eq_true, if_false, UInt64.toNat_ofNat']
  exact decide_eq_false (by omega)

theorem key_pack {n : Nat} (small : n < signBit) : (pack false n).key = n := by
  rw [key, negative_pack small, if_neg Bool.false_ne_true, magnitude_pack false small]

theorem isNaN_pack {n : Nat} (number : n ≤ infinite) : (pack false n).isNaN = false := by
  rw [isNaN, magnitude_pack false (Nat.lt_of_le_of_lt number (by decide))]
  exact decide_eq_false (Nat.not_lt.2 number)

/-- The words up to that of infinity are numbers in order. -/
theorem pack_lt_pack {i j : Nat} (before : i < j) (number : j ≤ infinite) : pack false i < pack false j := by
  have smallJ : j < signBit := Nat.lt_of_le_of_lt number (by decide)
  have smallI : i < signBit := Nat.lt_trans before smallJ
  refine lt_def.2 ⟨⟨isNaN_pack (by omega), isNaN_pack number⟩, ?_⟩
  rw [key_pack smallI, key_pack smallJ]
  exact Int.ofNat_lt.2 before

theorem pack_le_pack {i j : Nat} (le : i ≤ j) (number : j ≤ infinite) : pack false i ≤ pack false j := by
  have smallJ : j < signBit := Nat.lt_of_le_of_lt number (by decide)
  refine le_def.2 ⟨⟨isNaN_pack (Nat.le_trans le number), isNaN_pack number⟩, ?_⟩
  rw [key_pack (Nat.lt_of_le_of_lt le smallJ), key_pack smallJ]
  exact Int.ofNat_le.2 le

/-- A word is its sign and its magnitude. -/
theorem eq_of_parts (sign : x.negative = y.negative) (size : x.magnitude = y.magnitude) : x = y := by
  obtain ⟨a⟩ := x
  obtain ⟨b⟩ := y
  have inA := a.toNat_lt
  have inB := b.toNat_lt
  have sides : signBit ≤ a.toNat ↔ signBit ≤ b.toNat := decide_eq_decide.1 sign
  simp only [magnitude, signBit] at sides size
  congr 1
  apply UInt64.toNat_inj.1
  omega

theorem Same.alike (same : x.Same y) : x.Alike y := by
  obtain ⟨-, keys⟩ := same
  unfold key at keys
  by_cases sign : x.negative = y.negative
  · refine .inl (eq_of_parts sign ?_)
    rw [sign] at keys
    split at keys <;> omega
  · have zeros : x.magnitude = 0 ∧ y.magnitude = 0 := by
      cases left : x.negative <;> cases right : y.negative
      · exact absurd (left.trans right.symm) sign
      · simp only [left, right, Bool.false_eq_true, if_false, if_true] at keys
        omega
      · simp only [left, right, Bool.false_eq_true, if_false, if_true] at keys
        omega
      · exact absurd (left.trans right.symm) sign
    exact .inr zeros

namespace Alike

theorem magnitude_eq (alike : x.Alike y) : x.magnitude = y.magnitude := by
  rcases alike with rfl | ⟨left, right⟩
  · rfl
  · rw [left, right]

/-- Words that are alike and not zeros are one word. -/
theorem eq_of_ne (alike : x.Alike y) (size : x.magnitude ≠ 0) : x = y :=
  alike.resolve_right fun zeros => size zeros.1

theorem isNaN_eq (alike : x.Alike y) : x.isNaN = y.isNaN := by
  unfold isNaN
  rw [alike.magnitude_eq]

theorem isInfinite_eq (alike : x.Alike y) : x.isInfinite = y.isInfinite := by
  unfold isInfinite
  rw [alike.magnitude_eq]

theorem eq_of_isInfinite (alike : x.Alike y) (infinite : x.isInfinite = true) : x = y :=
  alike.eq_of_ne fun zero => by simp [isInfinite, zero, Binary64.infinite] at infinite

theorem exponent_eq (alike : x.Alike y) : x.exponent = y.exponent := by
  unfold exponent
  rw [alike.magnitude_eq]

theorem signed_eq (alike : x.Alike y) : x.signed = y.signed := by
  rcases alike with rfl | ⟨left, right⟩
  · rfl
  · simp [signed, significand, hiddenBit, left, right]

theorem signedIn_eq (alike : x.Alike y) (e : Int) : x.signedIn e = y.signedIn e := by
  rw [signedIn, signedIn, alike.signed_eq, alike.exponent_eq]

theorem key_eq (alike : x.Alike y) : x.key = y.key := by
  rcases alike with rfl | ⟨left, right⟩
  · rfl
  · simp [key, left, right]

theorem neg (alike : x.Alike y) : (-x).Alike (-y) := by
  rcases alike with rfl | ⟨left, right⟩
  · exact .refl _
  · refine .inr ⟨?_, ?_⟩
    · exact (magnitude_pack _ x.magnitude_lt).trans left
    · exact (magnitude_pack _ y.magnitude_lt).trans right

theorem add {x' y' : Binary64} (first : x.Alike x') (second : y.Alike y') : (x + y).Alike (x' + y') := by
  show (Binary64.add x y).Alike (Binary64.add x' y')
  unfold Binary64.add
  rw [← first.isNaN_eq, ← second.isNaN_eq, ← first.isInfinite_eq, ← second.isInfinite_eq]
  split
  · exact .refl _
  · split
    · next infinite =>
        rw [← first.eq_of_isInfinite infinite]
        split
        · next both =>
            rw [← second.eq_of_isInfinite ((Bool.and_eq_true _ _).mp both).1]
            simp [both, Alike.refl]
        · next one =>
            split
            · next both =>
                rw [← second.eq_of_isInfinite ((Bool.and_eq_true _ _).mp both).1] at both
                exact absurd both one
            · exact .refl _
    · split
      · exact second
      · simp only [first.exponent_eq, second.exponent_eq, first.signedIn_eq, second.signedIn_eq]
        split
        · refine .inr ⟨magnitude_pack _ ?_, magnitude_pack _ ?_⟩ <;> decide
        · exact .refl _

theorem sub {x' y' : Binary64} (first : x.Alike x') (second : y.Alike y') : (x - y).Alike (x' - y') :=
  first.add second.neg

theorem maximum {x' y' : Binary64} (first : x.Alike x') (second : y.Alike y') :
    (x.maximum y).Alike (x'.maximum y') := by
  unfold Binary64.maximum
  have less : x < y ↔ x' < y' := by
    rw [lt_def, lt_def, first.key_eq, second.key_eq, Comparable, Comparable, first.isNaN_eq, second.isNaN_eq]
  rw [← first.isNaN_eq]
  split
  · exact second
  · split
    · next before => rw [if_pos (less.1 before)]; exact second
    · next before => rw [if_neg (mt less.2 before)]; exact first

theorem atLeastZero (alike : x.Alike y) : x.atLeastZero.Alike y.atLeastZero := alike.maximum (.refl _)

theorem rounded (alike : x.Alike y) : x.rounded.Alike y.rounded := by
  have stays : ∀ z : Binary64, z.magnitude = 0 → z.rounded.magnitude = 0 := by
    intro z zero
    have none : z.significand = 0 := by simp [significand, zero, hiddenBit]
    unfold Binary64.rounded
    split
    · have unit : 0 < Nat.pow 2 (-z.exponent).toNat := Nat.pow_pos (by decide)
      have less : (2 * z.significand + Nat.pow 2 (-z.exponent).toNat) / (2 * Nat.pow 2 (-z.exponent).toNat) = 0 :=
        Nat.div_eq_of_lt (by omega)
      dsimp only
      rw [less]
      exact magnitude_pack _ (by decide)
    · exact zero
  rcases alike with rfl | ⟨left, right⟩
  · exact .refl _
  · exact .inr ⟨stays x left, stays y right⟩

end Alike

/-- What is at least one is no zero. -/
theorem magnitude_maximum_one (x : Binary64) : (x.maximum .one).magnitude ≠ 0 := by
  unfold maximum
  split
  · decide
  · next number =>
      split
      · decide
      · next least =>
          intro zero
          refine least ⟨⟨Bool.eq_false_iff.2 number, by decide⟩, ?_⟩
          have start : x.key = 0 := by simp [key, zero]
          rw [start]
          decide

theorem one_le_maximum (x : Binary64) : .one ≤ x.maximum .one := by
  have self : Binary64.one ≤ .one := by decide
  unfold maximum
  split
  · exact self
  · next number =>
      split
      · exact self
      · next least =>
          have comparable : Binary64.one.Comparable x := ⟨by decide, Bool.eq_false_iff.2 number⟩
          exact ⟨comparable, Int.not_lt.1 fun less => least ⟨comparable.symm, less⟩⟩

theorem clampTo_of_zero (zero : x.magnitude = 0) (low high : Int) :
    x.clampTo low high = max low (min high 0) := by
  have significand : x.significand = 0 := by simp [Binary64.significand, hiddenBit, zero]
  have whole : x.wholePart = 0 := by
    unfold wholePart
    rw [significand, Nat.zero_mul, Nat.zero_div, ite_self]
  simp [clampTo, isNaN, isInfinite, infinite, zero, whole]

theorem clampTo_mem (x : Binary64) {low high : Int} (below : low ≤ 0) (above : 0 ≤ high) :
    low ≤ x.clampTo low high ∧ x.clampTo low high ≤ high := by
  unfold clampTo
  split
  · exact ⟨below, above⟩
  · split
    · split <;> omega
    · dsimp only
      omega

/-- What is not below zero comes to an integer that is not, the negative zero as well. -/
theorem clampTo_atLeastZero_nonneg (x : Binary64) (low : Int) {high : Int} (above : 0 ≤ high) :
    0 ≤ x.atLeastZero.clampTo low high := by
  have least : ¬ x.atLeastZero < zero := by
    unfold Binary64.atLeastZero maximum
    split
    · exact lt_irrefl zero
    · split
      · exact lt_irrefl zero
      · assumption
  by_cases none : x.atLeastZero.magnitude = 0
  · rw [clampTo_of_zero none]
    omega
  · unfold clampTo
    by_cases number : x.atLeastZero.isNaN = true
    · simp [number]
    · have sign : x.atLeastZero.negative = false := by
        refine Bool.eq_false_iff.2 fun negative => least ⟨⟨Bool.eq_false_iff.2 number, by decide⟩, ?_⟩
        have zeroKey : zero.key = 0 := by decide
        rw [key, if_pos negative, zeroKey]
        omega
      rw [if_neg number, sign]
      split
      · exact above
      · simp only [Bool.false_eq_true, if_false]
        omega

theorem Alike.clampTo_eq (alike : x.Alike y) (low high : Int) : x.clampTo low high = y.clampTo low high := by
  rcases alike with rfl | ⟨left, right⟩
  · rfl
  · rw [clampTo_of_zero left, clampTo_of_zero right]

end Binary64
end Subtitles
