/-
# Proofs.Binary64.Products: products and integers in order

Multiplication by a positive number keeps order (`mul_le_mul_right`): everything is counted in the
smallest number, as for quotients, and rounding keeps order. So does the way back to an integer. A
number that is at least some integer is rounded to no less (`ofNat_le_rounded`) and has no less of a
whole part (`le_clampTo`); one that is at most some integer, to no more (`rounded_le_ofNat`, `toUInt32_le`).
-/
import Subtitles.Proofs.Binary64.Quotients
namespace Subtitles

set_option autoImplicit false

namespace Binary64

variable {x y z : Binary64} {n : Nat}

/-! ## Products -/

theorem roundMagnitude_pow (k n : Nat) (e : Int) : roundMagnitude (2 ^ k * n) e = roundMagnitude n (e + k) := by
  induction k generalizing e with
  | zero => rw [Nat.pow_zero, Nat.one_mul, Int.natCast_zero, Int.add_zero]
  | succ k ih =>
      rw [Nat.pow_succ', Nat.mul_assoc, roundMagnitude_double, ih]
      congr 1
      omega

/-- The magnitude of a product of finite numbers. -/
def productMagnitude (x y : Binary64) : Nat :=
  roundMagnitude (x.inSmallest * y.significand) (y.exponent - 1074)

theorem mul_eq (positiveX : x.negative = false) (finiteX : x.isFinite = true) (positiveY : y.negative = false)
    (finiteY : y.isFinite = true) : x * y = pack false (productMagnitude x y) := by
  have fewX : x.magnitude < infinite := of_decide_eq_true finiteX
  have fewY : y.magnitude < infinite := of_decide_eq_true finiteY
  have rounds : x * y = pack false (roundMagnitude (x.significand * y.significand) (x.exponent + y.exponent)) := by
    show mul x y = _
    have numberX : x.isNaN = false := decide_eq_false (by omega)
    have numberY : y.isNaN = false := decide_eq_false (by omega)
    have boundedX : x.isInfinite = false := decide_eq_false (by omega)
    have boundedY : y.isInfinite = false := decide_eq_false (by omega)
    simp only [mul, numberX, numberY, boundedX, boundedY, positiveX, positiveY, Bool.or_self, Bool.false_eq_true,
      if_false, bne_self_eq_false]
    rfl
  have least := x.le_exponent
  have units : x.significand * 2 ^ (x.exponent + 1074).toNat * y.significand =
      2 ^ (x.exponent + 1074).toNat * (x.significand * y.significand) := by
    rw [Nat.mul_comm x.significand, Nat.mul_assoc]
  rw [rounds, productMagnitude, inSmallest, units, roundMagnitude_pow]
  congr 2
  omega

/-- Numbers without a sign are in the order of their magnitudes. -/
theorem magnitude_le (le : x ≤ y) (positiveX : x.negative = false) (positiveY : y.negative = false) :
    x.magnitude ≤ y.magnitude := by
  have keys := le.2
  rw [key, key, positiveX, positiveY] at keys
  exact Int.ofNat_le.1 keys

theorem mul_le_mul_right (le : x ≤ y) (positiveX : x.negative = false) (positiveY : y.negative = false)
    (finite : y.isFinite = true) (positive : z.negative = false) (finiteZ : z.isFinite = true) : x * z ≤ y * z := by
  have magnitudes := magnitude_le le positiveX positiveY
  have finiteX : x.isFinite = true := decide_eq_true (Nat.lt_of_le_of_lt magnitudes (of_decide_eq_true finite))
  rw [mul_eq positiveX finiteX positive finiteZ, mul_eq positiveY finite positive finiteZ]
  exact pack_le_pack (roundMagnitude_mono (Nat.mul_le_mul_right _ (inSmallest_mono magnitudes)) _)
    (roundMagnitude_le _ _)

/-! ## Integers -/

theorem ofNat_le_ofNat {m : Nat} (le : n ≤ m) : ofNat n ≤ ofNat m :=
  pack_le_pack (roundMagnitude_mono le 0) (roundMagnitude_le m 0)

/-- What is at least a positive integer is positive, and has no less of a magnitude. -/
theorem of_ofNat_le (positive : 0 < n) (le : ofNat n ≤ x) :
    x.isNaN = false ∧ x.negative = false ∧ (ofNat n).magnitude ≤ x.magnitude := by
  have some : 0 < (ofNat n).magnitude := by
    rw [magnitude_ofNat]
    exact Nat.lt_of_lt_of_le (by decide) (roundMagnitude_mono positive 0)
  have keys : ((ofNat n).magnitude : Int) ≤ x.key := by
    have keys := le.2
    rwa [key, negative_ofNat, if_neg Bool.false_ne_true] at keys
  unfold key at keys
  split at keys
  · omega
  · next sign => exact ⟨le.1.2, Bool.eq_false_iff.2 sign, Int.ofNat_le.1 keys⟩

theorem wholePart_eq (x : Binary64) : x.wholePart = x.inSmallest / 2 ^ places := by
  have least := x.le_exponent
  have some : 0 < 2 ^ (x.exponent + 1074).toNat := Nat.two_pow_pos _
  unfold wholePart inSmallest
  simp only [Nat.pow_eq]
  split
  · rw [show (x.exponent + 1074).toNat = x.exponent.toNat + places by rw [places_eq]; omega, Nat.pow_add,
      ← Nat.mul_assoc, Nat.mul_div_cancel _ (Nat.two_pow_pos _)]
  · rw [show places = (-x.exponent).toNat + (x.exponent + 1074).toNat by rw [places_eq]; omega, Nat.pow_add,
      Nat.mul_div_mul_right _ _ some]

theorem le_wholePart (small : n < 2 ^ 53) (le : (ofNat n).magnitude ≤ x.magnitude) : n ≤ x.wholePart := by
  rw [wholePart_eq, Nat.le_div_iff_mul_le (Nat.two_pow_pos _), ← inSmallest_ofNat small]
  exact inSmallest_mono le

/-- A number stays as it is unless some of its units are fractions. -/
theorem rounded_cases (x : Binary64) :
    x.rounded = x ∨ x.exponent < 0 ∧ x.rounded = round x.negative
      ((2 * x.significand + 2 ^ (-x.exponent).toNat) / (2 * 2 ^ (-x.exponent).toNat)) 0 := by
  unfold rounded
  split
  · next fraction =>
      rw [Bool.and_eq_true, decide_eq_true_eq] at fraction
      exact .inr ⟨fraction.2, rfl⟩
  · exact .inl rfl

theorem ofNat_le_rounded (positive : 0 < n) (small : n < 2 ^ 53) (le : ofNat n ≤ x) : ofNat n ≤ x.rounded := by
  obtain ⟨-, sign, magnitudes⟩ := of_ofNat_le positive le
  obtain same | ⟨below, became⟩ := x.rounded_cases
  · rw [same]
    exact le
  · have whole := le_wholePart small magnitudes
    rw [wholePart, if_neg (Int.not_le.2 below)] at whole
    rw [became, sign]
    refine ofNat_le_ofNat (Nat.le_trans whole ?_)
    have some := Nat.two_pow_pos (-x.exponent).toNat
    rw [Nat.pow_eq, Nat.le_div_iff_mul_le (Nat.mul_pos Nat.two_pos some)]
    have cut := Nat.div_mul_le_self x.significand (2 ^ (-x.exponent).toNat)
    rw [Nat.mul_left_comm]
    omega

theorem le_clampTo (high : Int) (positive : 0 < n) (small : n < 2 ^ 53) (le : ofNat n ≤ x) (within : n ≤ high) :
    n ≤ x.clampTo 0 high := by
  obtain ⟨number, sign, magnitudes⟩ := of_ofNat_le positive le
  have whole := le_wholePart small magnitudes
  unfold clampTo
  dsimp only
  rw [number, if_neg Bool.false_ne_true, sign, if_neg Bool.false_ne_true, if_neg Bool.false_ne_true]
  split <;> omega

theorem le_toUInt32 (positive : 0 < n) (small : n < 2 ^ 32) (le : ofNat n ≤ x) : n ≤ x.toUInt32.toNat := by
  have low := le_clampTo 0xffffffff positive (Nat.lt_trans small (by decide)) le (by omega)
  have high : x.clampTo 0 0xffffffff ≤ 0xffffffff := (x.clampTo_mem (by decide) (by decide)).2
  rw [toUInt32, UInt32.toNat_ofNat']
  omega

theorem wholePart_le (small : n < 2 ^ 53) (le : x.magnitude ≤ (ofNat n).magnitude) : x.wholePart ≤ n := by
  rw [wholePart_eq]
  apply Nat.div_le_of_le_mul
  rw [Nat.mul_comm, ← inSmallest_ofNat small]
  exact inSmallest_mono le

theorem isFinite_ofNat (small : n < 2 ^ 53) : (ofNat n).isFinite = true := by
  refine decide_eq_true ?_
  rw [magnitude_ofNat]
  exact Nat.lt_of_le_of_lt (roundMagnitude_mono (Nat.le_of_lt small) 0) (by decide)

/-- What is at most an integer is rounded to no more. -/
theorem rounded_le_ofNat (small : n < 2 ^ 53) (positive : x.negative = false) (le : x ≤ ofNat n) :
    x.rounded.negative = false ∧ x.rounded ≤ ofNat n := by
  obtain same | ⟨below, became⟩ := x.rounded_cases
  · rw [same]
    exact ⟨positive, le⟩
  · have least := x.le_exponent
    have some := Nat.two_pow_pos (-x.exponent).toNat
    have cut : x.significand ≤ n * 2 ^ (-x.exponent).toNat := by
      have units := inSmallest_mono (magnitude_le le positive (negative_ofNat n))
      rw [inSmallest_ofNat small, inSmallest, show places = (-x.exponent).toNat + (x.exponent + 1074).toNat by
        rw [places_eq]; omega, Nat.pow_add, ← Nat.mul_assoc] at units
      exact Nat.le_of_mul_le_mul_right units (Nat.two_pow_pos _)
    rw [became, positive]
    refine ⟨negative_ofNat _, ofNat_le_ofNat (Nat.le_of_lt_succ ?_)⟩
    rw [Nat.div_lt_iff_lt_mul (Nat.mul_pos Nat.two_pos some), Nat.succ_mul n, Nat.mul_left_comm]
    omega

theorem toUInt32_le (small : n < 2 ^ 53) (positive : x.negative = false) (le : x ≤ ofNat n) : x.toUInt32.toNat ≤ n := by
  have magnitudes := magnitude_le le positive (negative_ofNat n)
  have finite : x.magnitude < infinite := Nat.lt_of_le_of_lt magnitudes (of_decide_eq_true (isFinite_ofNat small))
  have whole := wholePart_le small magnitudes
  have clamped : x.clampTo 0 0xffffffff ≤ n := by
    have number : x.isNaN = false := decide_eq_false (by omega)
    have bounded : x.isInfinite = false := decide_eq_false (by omega)
    unfold clampTo
    simp only [number, bounded, positive, Bool.false_eq_true, if_false]
    omega
  rw [toUInt32, UInt32.toNat_ofNat']
  omega

/-- What is at least one counts. -/
theorem toUInt64_pos (large : .one ≤ x) : 0 < x.toUInt64.toNat := by
  have low := le_clampTo (n := 1) 0xffffffffffffffff (by decide) (by decide) large (by decide)
  have high : x.clampTo 0 0xffffffffffffffff ≤ 0xffffffffffffffff := (x.clampTo_mem (by decide) (by decide)).2
  rw [toUInt64, UInt64.toNat_ofNat']
  omega

end Binary64
end Subtitles
