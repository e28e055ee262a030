/-
# Proofs.Binary64.Quotients: even steps of time do not go back

The time of a frame is its index divided by the frames in a second, rounded twice. Rounding keeps the
order of what has one unit (`roundMagnitude_mono`), and a quotient rounds to the same number whether its
numerator is doubled or its unit (`roundMagnitude_sticky_double`): a bit that only says that something
was cut off weighs the same one place lower. So quotients are compared in one unit, and later frames do not
come earlier (`ofNat_div_le`). The first thousand are some 50 bits apart from one another, and keep apart
unless they run out of numbers (`ofNat_div_lt`).
-/
import Mathlib.Algebra.Group.Nat.Defs
import Subtitles.Proofs.Binary64
namespace Subtitles

set_option autoImplicit false

namespace Binary64

/-! ## Rounding -/

section Rounding

variable {n m k : Nat} {e unit : Int}

theorem shiftRounded_mono (le : n ≤ m) (k : Nat) : shiftRounded n k ≤ shiftRounded m k := by
  have quotients : n / Nat.pow 2 k ≤ m / Nat.pow 2 k := Nat.div_le_div_right le
  have rest : n / Nat.pow 2 k = m / Nat.pow 2 k → n % Nat.pow 2 k ≤ m % Nat.pow 2 k := by
    intro same
    have left := Nat.div_add_mod n (Nat.pow 2 k)
    have right := Nat.div_add_mod m (Nat.pow 2 k)
    rw [same] at left
    omega
  unfold shiftRounded
  dsimp only
  generalize n / Nat.pow 2 k = q at *
  generalize m / Nat.pow 2 k = q' at *
  split <;> split <;> omega

/-- Half a unit is lost at most. -/
theorem shiftRounded_near (n k : Nat) :
    2 * (2 ^ k * shiftRounded n k) ≤ 2 * n + 2 ^ k ∧ 2 * n ≤ 2 * (2 ^ k * shiftRounded n k) + 2 ^ k := by
  have parts := Nat.div_add_mod n (2 ^ k)
  have less := Nat.mod_lt n (Nat.two_pow_pos k)
  unfold shiftRounded
  dsimp only [Nat.pow_eq]
  split
  · rw [Nat.mul_add]
    omega
  · omega

theorem shiftRounded_double (n k : Nat) : shiftRounded (2 * n) (k + 1) = shiftRounded n k := by
  have double : Nat.pow 2 (k + 1) = 2 * Nat.pow 2 k := Nat.pow_succ'
  unfold shiftRounded
  dsimp only
  rw [double, Nat.mul_div_mul_left _ _ (by decide), Nat.mul_mod_mul_left]
  congr 1
  simp only [eq_iff_iff]
  omega

/-- Of four neighbours the three in the middle round to one integer. -/
theorem shiftRounded_between (n k : Nat) {i : Nat} (positive : 0 < i) (less : i < 4) :
    shiftRounded (4 * n + i) (k + 3) = shiftRounded (4 * n + 2) (k + 3) := by
  have eight : Nat.pow 2 (k + 3) = 4 * (2 * 2 ^ k) := by
    rw [Nat.pow_eq, Nat.pow_add]
    omega
  have parts : ∀ j, j < 4 → (4 * n + j) / Nat.pow 2 (k + 3) = n / (2 * 2 ^ k) ∧
      (4 * n + j) % Nat.pow 2 (k + 3) = 4 * (n % (2 * 2 ^ k)) + j := by
    intro j small
    have quotient : (4 * n + j) / Nat.pow 2 (k + 3) = n / (2 * 2 ^ k) := by
      rw [eight, ← Nat.div_div_eq_div_mul, show (4 * n + j) / 4 = n by omega]
    refine ⟨quotient, ?_⟩
    have left := Nat.div_add_mod (4 * n + j) (Nat.pow 2 (k + 3))
    have right := Nat.div_add_mod n (2 * 2 ^ k)
    rw [quotient, eight, Nat.mul_assoc] at left
    rw [eight]
    omega
  unfold shiftRounded
  dsimp only
  rw [(parts i less).1, (parts i less).2, (parts 2 (by decide)).1, (parts 2 (by decide)).2, eight]
  congr 1
  simp only [eq_iff_iff]
  omega

/-- The number `n * 2 ^ e` in units of `2 ^ unit`. -/
def inUnits (n : Nat) (e unit : Int) : Nat :=
  if unit ≤ e then n * 2 ^ (e - unit).toNat else shiftRounded n (unit - e).toNat

/-- The unit that `n * 2 ^ e` is rounded to. -/
def unitOf (n : Nat) (e : Int) : Int := max (e + n.log2 - 52) (-1074)

/-- The magnitude before it is cut at infinity. -/
def unbounded (n : Nat) (e : Int) : Nat := (unitOf n e + 1074).toNat * hiddenBit + inUnits n e (unitOf n e)

theorem roundMagnitude_eq (some : n ≠ 0) (e : Int) : roundMagnitude n e = min infinite (unbounded n e) := by
  rw [roundMagnitude, if_neg some]
  rfl

theorem roundMagnitude_le (n : Nat) (e : Int) : roundMagnitude n e ≤ infinite := by
  by_cases none : n = 0
  · rw [roundMagnitude, if_pos none]
    exact Nat.zero_le _
  · rw [roundMagnitude_eq none]
    exact Nat.min_le_left ..

theorem inUnits_mono (le : n ≤ m) (e unit : Int) : inUnits n e unit ≤ inUnits m e unit := by
  unfold inUnits
  split
  · exact Nat.mul_le_mul_right _ le
  · exact shiftRounded_mono le _

theorem inUnits_near (n : Nat) (coarse : e ≤ unit) :
    2 * (2 ^ (unit - e).toNat * inUnits n e unit) ≤ 2 * n + 2 ^ (unit - e).toNat ∧
      2 * n ≤ 2 * (2 ^ (unit - e).toNat * inUnits n e unit) + 2 ^ (unit - e).toNat := by
  unfold inUnits
  split
  · rw [show (unit - e).toNat = 0 by omega, show (e - unit).toNat = 0 by omega]
    omega
  · exact shiftRounded_near n _

theorem log2_mono (le : n ≤ m) : n.log2 ≤ m.log2 := by
  rcases Nat.eq_zero_or_pos n with rfl | positive
  · exact Nat.zero_le _
  · exact (Nat.le_log2 (by omega)).2 (Nat.le_trans (Nat.log2_self_le (by omega)) le)

theorem unitOf_mono (le : n ≤ m) (e : Int) : unitOf n e ≤ unitOf m e := by
  have logs := log2_mono le
  unfold unitOf
  omega

theorem inUnits_two_pow {a : Nat} (fits : unit ≤ e + a) : inUnits (2 ^ a) e unit = 2 ^ (e + a - unit).toNat := by
  unfold inUnits
  split
  · rw [← Nat.pow_add]
    congr 1
    omega
  · next coarse =>
      have parts : 2 ^ a = 2 ^ (e + a - unit).toNat * 2 ^ (unit - e).toNat := by
        rw [← Nat.pow_add]
        congr 1
        omega
      have some := Nat.two_pow_pos (unit - e).toNat
      unfold shiftRounded
      dsimp only [Nat.pow_eq]
      rw [parts, Nat.mul_mod_left, Nat.mul_div_cancel _ some, if_neg]
      omega

/-- A significand has at most 53 bits, unless it is rounded up to the next power of two. -/
theorem inUnits_le (n : Nat) (e : Int) : inUnits n e (unitOf n e) ≤ 2 * hiddenBit := by
  have above : e + n.log2 - 52 ≤ unitOf n e := Int.le_max_left ..
  have below : n ≤ 2 ^ (unitOf n e - e + 53).toNat :=
    Nat.le_trans (Nat.le_of_lt Nat.lt_log2_self) (Nat.pow_le_pow_right (by decide) (by omega))
  refine Nat.le_trans (inUnits_mono below e _) (Nat.le_of_eq ?_)
  rw [inUnits_two_pow (by omega), show (e + (unitOf n e - e + 53).toNat - unitOf n e).toNat = 53 by omega]
  rfl

/-- Above the smallest unit it has all of them. -/
theorem le_inUnits (some : n ≠ 0) (normal : -1074 < unitOf n e) : hiddenBit ≤ inUnits n e (unitOf n e) := by
  have exact : unitOf n e = e + n.log2 - 52 := by
    unfold unitOf at normal ⊢
    omega
  refine Nat.le_trans (Nat.le_of_eq ?_) (inUnits_mono (Nat.log2_self_le some) e _)
  rw [inUnits_two_pow (by omega), show (e + n.log2 - unitOf n e).toNat = 52 by omega]
  rfl

theorem unbounded_mono (some : n ≠ 0) (le : n ≤ m) (e : Int) : unbounded n e ≤ unbounded m e := by
  have units := unitOf_mono le e
  have least : -1074 ≤ unitOf n e := Int.le_max_right ..
  unfold unbounded
  rcases Int.lt_or_eq_of_le units with finer | same
  · have left := inUnits_le n e
    have right := le_inUnits (n := m) (e := e) (by omega) (Int.lt_of_le_of_lt least finer)
    obtain ⟨more, further⟩ : ∃ more, (unitOf m e + 1074).toNat = (unitOf n e + 1074).toNat + 1 + more :=
      ⟨(unitOf m e - unitOf n e - 1).toNat, by omega⟩
    rw [further, Nat.add_mul, Nat.add_mul]
    omega
  · rw [← same]
    exact Nat.add_le_add_left (inUnits_mono le e _) _

theorem roundMagnitude_mono (le : n ≤ m) (e : Int) : roundMagnitude n e ≤ roundMagnitude m e := by
  by_cases none : n = 0
  · rw [roundMagnitude, if_pos none]
    exact Nat.zero_le _
  · have grown := unbounded_mono none le e
    rw [roundMagnitude_eq none, roundMagnitude_eq (by omega)]
    omega

/-- Numbers more than a unit apart are told apart. -/
theorem unbounded_lt (some : n ≠ 0) (coarse : e ≤ unitOf n e) (apart : n + 2 ^ (unitOf m e - e).toNat < m) :
    unbounded n e < unbounded m e := by
  have le : n ≤ m := Nat.le_of_lt (Nat.lt_of_le_of_lt (Nat.le_add_right ..) apart)
  have units := unitOf_mono le e
  have least : -1074 ≤ unitOf n e := Int.le_max_right ..
  have nearN := (inUnits_near n coarse).1
  have nearM := (inUnits_near m (Int.le_trans coarse units)).2
  unfold unbounded
  rcases Int.lt_or_eq_of_le units with finer | same
  · have left := inUnits_le n e
    have right := le_inUnits (n := m) (e := e) (by omega) (Int.lt_of_le_of_lt least finer)
    obtain ⟨more, further⟩ : ∃ more, unitOf m e = unitOf n e + 1 + (more : Nat) :=
      ⟨(unitOf m e - unitOf n e - 1).toNat, by omega⟩
    rw [show (unitOf m e + 1074).toNat = (unitOf n e + 1074).toNat + 1 + more by omega, Nat.add_mul, Nat.add_mul]
    refine Nat.lt_of_not_le fun beyond => ?_
    -- Only a carry brings the two together, and that takes less than the unit between them.
    obtain rfl : more = 0 := by
      unfold hiddenBit at *
      omega
    have full : inUnits n e (unitOf n e) = 2 * hiddenBit ∧ inUnits m e (unitOf m e) = hiddenBit := by omega
    rw [show (unitOf m e - e).toNat = (unitOf n e - e).toNat + 1 by omega, Nat.pow_succ] at nearM apart
    rw [full.1] at nearN
    rw [full.2] at nearM
    unfold hiddenBit at nearN nearM
    omega
  · rw [← same] at nearM apart ⊢
    have fewer : 2 ^ (unitOf n e - e).toNat * inUnits n e (unitOf n e) <
        2 ^ (unitOf n e - e).toNat * inUnits m e (unitOf n e) := by
      omega
    exact Nat.add_lt_add_left (Nat.lt_of_mul_lt_mul_left fewer) _

theorem log2_between (positive : 0 < n) {i : Nat} (less : i < 4) : (4 * n + i).log2 = n.log2 + 2 := by
  have low := Nat.log2_self_le (n := n) (by omega)
  have high := Nat.lt_log2_self (n := n)
  refine (Nat.log2_eq_iff (by omega)).2 ⟨?_, ?_⟩
  · rw [Nat.pow_add]
    omega
  · rw [Nat.pow_succ] at high
    rw [show n.log2 + 2 + 1 = n.log2 + 3 by rfl, Nat.pow_add]
    omega

theorem roundMagnitude_double (n : Nat) (e : Int) : roundMagnitude (2 * n) e = roundMagnitude n (e + 1) := by
  rcases Nat.eq_zero_or_pos n with rfl | positive
  · rw [Nat.mul_zero, roundMagnitude, roundMagnitude, if_pos rfl, if_pos rfl]
  have units : unitOf (2 * n) e = unitOf n (e + 1) := by
    unfold unitOf
    rw [Nat.log2_two_mul (by omega)]
    omega
  rw [roundMagnitude_eq (by omega), roundMagnitude_eq (by omega), unbounded, unbounded, units]
  congr 2
  generalize unitOf n (e + 1) = unit
  unfold inUnits
  by_cases fine : unit ≤ e
  · rw [if_pos fine, if_pos (by omega), show (e + 1 - unit).toNat = (e - unit).toNat + 1 by omega, Nat.pow_succ',
      ← Nat.mul_assoc, Nat.mul_comm 2]
  · obtain ⟨k, coarse⟩ : ∃ k : Nat, unit = e + 1 + k := ⟨(unit - e - 1).toNat, by omega⟩
    rw [if_neg fine, show (unit - e).toNat = k + 1 by omega, shiftRounded_double]
    split
    · obtain rfl : k = 0 := by omega
      rw [show (e + 1 - unit).toNat = 0 by omega]
      simp [shiftRounded, Nat.mod_one]
    · rw [show (unit - (e + 1)).toNat = k by omega]

/-- Of four neighbours the three in the middle round to one number, if they are large. -/
theorem roundMagnitude_between (large : 2 ^ 53 ≤ n) (e : Int) {i : Nat} (positive : 0 < i) (less : i < 4) :
    roundMagnitude (4 * n + i) e = roundMagnitude (4 * n + 2) e := by
  have logs : 53 ≤ n.log2 := (Nat.le_log2 (by omega)).2 large
  have units : unitOf (4 * n + i) e = unitOf (4 * n + 2) e := by
    unfold unitOf
    rw [log2_between (by omega) less, log2_between (by omega) (by decide)]
  obtain ⟨k, coarse⟩ : ∃ k : Nat, unitOf (4 * n + 2) e = e + 3 + k := by
    refine ⟨(unitOf (4 * n + 2) e - e - 3).toNat, ?_⟩
    unfold unitOf
    rw [log2_between (by omega) (by decide)]
    omega
  rw [roundMagnitude_eq (by omega), roundMagnitude_eq (by omega), unbounded, unbounded, units, inUnits, inUnits,
    coarse, if_neg (by omega), if_neg (by omega), show (e + 3 + (k : Int) - e).toNat = k + 3 by omega,
    shiftRounded_between n k positive less]

end Rounding

/-! ## Quotients -/

section Quotients

variable {n m den : Nat}

/-- A quotient with a bit more that says whether anything was cut off. -/
def sticky (n den : Nat) : Nat := 2 * (n / den) + if n % den = 0 then 0 else 1

theorem sticky_mono (le : n ≤ m) (den : Nat) : sticky n den ≤ sticky m den := by
  have quotients : n / den ≤ m / den := Nat.div_le_div_right le
  have rest : n / den = m / den → n % den ≤ m % den := by
    intro same
    have left := Nat.div_add_mod n den
    have right := Nat.div_add_mod m den
    rw [same] at left
    omega
  unfold sticky
  split <;> split <;> omega

/-- The bit cut off weighs the same one place lower. -/
theorem roundMagnitude_sticky_double (positive : 0 < den) (large : 2 ^ 53 * den ≤ n) (e : Int) :
    roundMagnitude (sticky (2 * n) den) e = roundMagnitude (sticky n den) (e + 1) := by
  have big : 2 ^ 53 ≤ n / den := (Nat.le_div_iff_mul_le positive).2 large
  have parts := Nat.div_add_mod n den
  have less := Nat.mod_lt n positive
  rw [← roundMagnitude_double]
  by_cases exact : n % den = 0
  · have whole : 2 * n = den * (2 * (n / den)) := by
      rw [Nat.mul_left_comm]
      omega
    rw [sticky, sticky, whole, Nat.mul_mod_right, Nat.mul_div_cancel_left _ positive, exact]
    rfl
  · obtain ⟨i, low, high, between⟩ : ∃ i, 0 < i ∧ i < 4 ∧ sticky (2 * n) den = 4 * (n / den) + i := by
      have double : 2 * n = den * (2 * (n / den)) + 2 * (n % den) := by
        rw [Nat.mul_left_comm]
        omega
      have quotient : 2 * n / den = 2 * (n / den) + 2 * (n % den) / den := by
        rw [double, Nat.mul_add_div positive]
      have rest : 2 * n % den = 2 * (n % den) % den := by
        rw [double, Nat.mul_add_mod]
      unfold sticky
      rw [quotient, rest]
      rcases Nat.lt_or_ge (2 * (n % den)) den with below | above
      · rw [Nat.div_eq_of_lt below, Nat.mod_eq_of_lt below, if_neg (by omega)]
        exact ⟨1, by omega, by omega, by omega⟩
      · have once : 2 * (n % den) / den = 1 := by
          rw [Nat.div_eq_iff positive]
          omega
        rw [once]
        split
        · exact ⟨2, by omega, by omega, by omega⟩
        · exact ⟨3, by omega, by omega, by omega⟩
    rw [between, roundMagnitude_between big e low high, sticky, if_neg exact]
    congr 1
    omega

theorem roundMagnitude_sticky_pow (positive : 0 < den) (large : 2 ^ 53 * den ≤ n) (k : Nat) (e : Int) :
    roundMagnitude (sticky (2 ^ k * n) den) e = roundMagnitude (sticky n den) (e + k) := by
  induction k generalizing e with
  | zero =>
      rw [Nat.pow_zero, Nat.one_mul]
      exact congrArg _ (Int.add_zero e).symm
  | succ k ih =>
      have larger : 2 ^ 53 * den ≤ 2 ^ k * n :=
        Nat.le_trans large (Nat.le_mul_of_pos_left n (Nat.two_pow_pos k))
      rw [Nat.pow_succ', Nat.mul_assoc, roundMagnitude_sticky_double positive larger, ih]
      congr 1
      omega

variable {x y : Binary64}

/-- A finite number counted in the smallest one. -/
def inSmallest (x : Binary64) : Nat := x.significand * 2 ^ (x.exponent + 1074).toNat

theorem le_exponent (x : Binary64) : -1074 ≤ x.exponent := by
  unfold exponent hiddenBit
  split <;> omega

theorem significand_pos (some : x.magnitude ≠ 0) : 0 < x.significand := by
  unfold significand hiddenBit
  split <;> omega

theorem inSmallest_of_subnormal (small : x.magnitude < hiddenBit) : x.inSmallest = x.magnitude := by
  rw [inSmallest, significand, exponent, if_pos small, if_pos small]
  exact Nat.mul_one _

theorem inSmallest_of_normal {field : Nat} (parts : x.magnitude / hiddenBit = field + 1) :
    x.inSmallest = (x.magnitude % hiddenBit + hiddenBit) * 2 ^ field := by
  have large : ¬ x.magnitude < hiddenBit := by
    unfold hiddenBit at parts ⊢
    omega
  rw [inSmallest, significand, exponent, if_neg large, if_neg large, parts]
  congr 2
  omega

/-- A larger magnitude is a larger number. -/
theorem inSmallest_mono (le : x.magnitude ≤ y.magnitude) : x.inSmallest ≤ y.inSmallest := by
  have fields : x.magnitude / hiddenBit ≤ y.magnitude / hiddenBit := Nat.div_le_div_right le
  cases fieldY : y.magnitude / hiddenBit with
  | zero =>
      rw [inSmallest_of_subnormal, inSmallest_of_subnormal]
      · exact le
      all_goals
        unfold hiddenBit at fieldY fields ⊢
        omega
  | succ v =>
      rw [inSmallest_of_normal fieldY]
      have some := Nat.two_pow_pos v
      cases fieldX : x.magnitude / hiddenBit with
      | zero =>
          rw [inSmallest_of_subnormal (by unfold hiddenBit at fieldX ⊢; omega)]
          refine Nat.le_trans ?_ (Nat.le_mul_of_pos_right _ some)
          unfold hiddenBit at fieldX ⊢
          omega
      | succ u =>
          rw [inSmallest_of_normal fieldX]
          rcases Nat.lt_or_ge u v with below | same
          · calc (x.magnitude % hiddenBit + hiddenBit) * 2 ^ u
                ≤ (hiddenBit * 2) * 2 ^ u := Nat.mul_le_mul_right _ (by
                  unfold hiddenBit
                  omega)
              _ = hiddenBit * 2 ^ (u + 1) := by rw [Nat.mul_assoc, ← Nat.pow_succ']
              _ ≤ hiddenBit * 2 ^ v := Nat.mul_le_mul_left _ (Nat.pow_le_pow_right (by decide) below)
              _ ≤ (y.magnitude % hiddenBit + hiddenBit) * 2 ^ v := Nat.mul_le_mul_right _ (Nat.le_add_left ..)
          · obtain rfl : u = v := by omega
            refine Nat.mul_le_mul_right _ ?_
            unfold hiddenBit at fieldX fieldY ⊢
            omega

/-- The magnitude of a quotient of finite numbers. -/
def quotientMagnitude (x y : Binary64) : Nat :=
  roundMagnitude (sticky (x.inSmallest * 2 ^ 110) y.significand) (-1185 - y.exponent)

theorem div_eq (positiveX : x.negative = false) (finiteX : x.isFinite = true) (positiveY : y.negative = false)
    (finiteY : y.isFinite = true) (some : y.magnitude ≠ 0) : x / y = pack false (quotientMagnitude x y) := by
  have fewX : x.magnitude < infinite := of_decide_eq_true finiteX
  have fewY : y.magnitude < infinite := of_decide_eq_true finiteY
  have rounds : x / y = pack false (roundMagnitude (sticky (x.significand * 2 ^ 110) y.significand)
      (x.exponent - y.exponent - 111)) := by
    show div x y = _
    have numberX : x.isNaN = false := decide_eq_false (by omega)
    have numberY : y.isNaN = false := decide_eq_false (by omega)
    have boundedX : x.isInfinite = false := decide_eq_false (by omega)
    have boundedY : y.isInfinite = false := decide_eq_false (by omega)
    simp only [div, numberX, numberY, boundedX, boundedY, positiveX, positiveY, some, Bool.or_self, Bool.false_eq_true,
      if_false, bne_self_eq_false]
    rfl
  rw [rounds, quotientMagnitude, inSmallest]
  rcases Nat.eq_zero_or_pos x.significand with none | someX
  · simp [none, sticky, roundMagnitude]
  · have large : 2 ^ 53 * y.significand ≤ x.significand * 2 ^ 110 := by
      have below := y.significand_lt
      unfold hiddenBit at below
      omega
    have least := x.le_exponent
    have units : x.significand * 2 ^ (x.exponent + 1074).toNat * 2 ^ 110 =
        2 ^ (x.exponent + 1074).toNat * (x.significand * 2 ^ 110) := by
      rw [Nat.mul_right_comm, Nat.mul_comm]
    rw [units, roundMagnitude_sticky_pow (significand_pos some) large]
    congr 2
    omega

end Quotients

/-! ## Even steps -/

section Steps

variable {y : Binary64} {i j : Nat}

theorem magnitude_ofNat (i : Nat) : (ofNat i).magnitude = roundMagnitude i 0 :=
  magnitude_pack _ (Nat.lt_of_le_of_lt (roundMagnitude_le i 0) (by decide))

theorem negative_ofNat (i : Nat) : (ofNat i).negative = false :=
  negative_pack (Nat.lt_of_le_of_lt (roundMagnitude_le i 0) (by decide))

/-- The binary places of the smallest number. They are not for evaluation. -/
@[irreducible]
def places : Nat := 1074

theorem places_eq : places = 1074 := by rw [places]

/-- Integers of up to 53 bits are exact. -/
theorem inSmallest_ofNat (small : i < 2 ^ 53) : (ofNat i).inSmallest = i * 2 ^ places := by
  rcases Nat.eq_zero_or_pos i with rfl | positive
  · rw [Nat.zero_mul, inSmallest_of_subnormal] <;> rw [magnitude_ofNat, roundMagnitude, if_pos rfl]
    decide
  · have bits : i.log2 < 53 := (Nat.log2_lt (by omega)).2 small
    have unit : unitOf i 0 = (i.log2 : Int) - 52 := by
      unfold unitOf
      omega
    have low := le_inUnits (n := i) (e := 0) (by omega) (by omega)
    have units : inUnits i 0 (unitOf i 0) = i * 2 ^ (52 - i.log2) := by
      rw [inUnits, if_pos (by omega)]
      congr 2
      omega
    have high : i * 2 ^ (52 - i.log2) < 2 * hiddenBit := by
      have below := Nat.mul_lt_mul_of_pos_right (Nat.lt_log2_self (n := i)) (Nat.two_pow_pos (52 - i.log2))
      rwa [← Nat.pow_add, show i.log2 + 1 + (52 - i.log2) = 53 by omega] at below
    have magnitude : (ofNat i).magnitude = (i.log2 + 1022) * hiddenBit + i * 2 ^ (52 - i.log2) := by
      rw [magnitude_ofNat, roundMagnitude_eq (by omega), unbounded, units,
        show (unitOf i 0 + 1074).toNat = i.log2 + 1022 by omega, Nat.min_eq_right]
      unfold hiddenBit at high ⊢
      unfold infinite
      omega
    rw [units] at low
    have field : (ofNat i).magnitude / hiddenBit = i.log2 + 1022 + 1 := by
      rw [magnitude]
      unfold hiddenBit at low high ⊢
      omega
    have significand : (ofNat i).magnitude % hiddenBit + hiddenBit = i * 2 ^ (52 - i.log2) := by
      rw [magnitude]
      unfold hiddenBit at low high ⊢
      omega
    rw [inSmallest_of_normal field, significand, Nat.mul_assoc, ← Nat.pow_add,
      show 52 - i.log2 + (i.log2 + 1022) = places by rw [places_eq]; omega]

/-- The magnitude of so many steps, as many of which make one. -/
def stepMagnitude (y : Binary64) (i : Nat) : Nat :=
  if (ofNat i).isFinite then quotientMagnitude (ofNat i) y else infinite

theorem stepMagnitude_le (y : Binary64) (i : Nat) : stepMagnitude y i ≤ infinite := by
  unfold stepMagnitude
  split
  · exact roundMagnitude_le ..
  · exact Nat.le_refl _

theorem stepMagnitude_mono (le : i ≤ j) (y : Binary64) : stepMagnitude y i ≤ stepMagnitude y j := by
  have magnitudes : (ofNat i).magnitude ≤ (ofNat j).magnitude := by
    rw [magnitude_ofNat, magnitude_ofNat]
    exact roundMagnitude_mono le 0
  by_cases finite : (ofNat j).isFinite = true
  · have finiteI : (ofNat i).isFinite = true :=
      decide_eq_true (Nat.lt_of_le_of_lt magnitudes (of_decide_eq_true finite))
    rw [stepMagnitude, stepMagnitude, if_pos finite, if_pos finiteI]
    exact roundMagnitude_mono (sticky_mono (Nat.mul_le_mul_right _ (inSmallest_mono magnitudes)) _) _
  · rw [stepMagnitude.eq_1 y j, if_neg finite]
    exact stepMagnitude_le y i

theorem negative_of_pos (positive : .zero < y) : y.negative = false ∧ y.magnitude ≠ 0 := by
  have key : 0 < y.key := positive.2
  unfold Binary64.key at key
  split at key
  · omega
  · next sign => exact ⟨Bool.eq_false_iff.2 sign, by omega⟩

theorem ofNat_div_eq (finite : y.isFinite = true) (positive : .zero < y) (i : Nat) :
    ofNat i / y = pack false (stepMagnitude y i) := by
  obtain ⟨sign, some⟩ := negative_of_pos positive
  unfold stepMagnitude
  split
  · next finiteI => exact div_eq (negative_ofNat i) finiteI sign finite some
  · next beyond =>
      have largest : (ofNat i).magnitude = infinite := by
        have bound := roundMagnitude_le i 0
        rw [← magnitude_ofNat] at bound
        have above : ¬ (ofNat i).magnitude < infinite := fun less => beyond (decide_eq_true less)
        omega
      have below : y.magnitude < infinite := of_decide_eq_true finite
      have numberY : y.isNaN = false := decide_eq_false (by omega)
      have boundedY : y.isInfinite = false := decide_eq_false (by omega)
      have number : (ofNat i).isNaN = false := decide_eq_false (by omega)
      have unbounded : (ofNat i).isInfinite = true := decide_eq_true largest
      show div (ofNat i) y = _
      simp [div, number, numberY, unbounded, boundedY, negative_ofNat, sign]

/-- More steps do not come to less. -/
theorem ofNat_div_le (finite : y.isFinite = true) (positive : .zero < y) (le : i ≤ j) :
    ofNat i / y ≤ ofNat j / y := by
  rw [ofNat_div_eq finite positive, ofNat_div_eq finite positive]
  exact pack_le_pack (stepMagnitude_mono le y) (stepMagnitude_le y j)

/-- Where they do not come to more, they come to the same. -/
theorem ofNat_div_eq_of_not_lt (finite : y.isFinite = true) (positive : .zero < y) (le : i ≤ j)
    (notLess : ¬ ofNat i / y < ofNat j / y) : ofNat i / y = ofNat j / y := by
  rw [ofNat_div_eq finite positive, ofNat_div_eq finite positive] at notLess ⊢
  rcases Nat.lt_or_eq_of_le (stepMagnitude_mono le y) with less | same
  · exact absurd (pack_lt_pack less (stepMagnitude_le y j)) notLess
  · rw [same]

theorem exponent_le (finite : y.isFinite = true) : y.exponent ≤ 971 := by
  have below : y.magnitude < infinite := of_decide_eq_true finite
  unfold infinite at below
  unfold exponent hiddenBit
  split <;> omega

/-! One, as a numerator, is called `unity` from here on: what it is would be written out wherever it is seen. -/

variable {unity : Nat}

theorem quotientMagnitude_ofNat (isUnity : unity = 2 ^ places * 2 ^ 110) (small : i < 2 ^ 53) (y : Binary64) :
    quotientMagnitude (ofNat i) y = roundMagnitude (sticky (i * unity) y.significand) (-1185 - y.exponent) := by
  rw [quotientMagnitude, inSmallest_ofNat small, Nat.mul_assoc, isUnity]

theorem sticky_bounds (n den : Nat) : 2 * (n / den) ≤ sticky n den ∧ sticky n den ≤ 2 * (n / den) + 1 := by
  unfold sticky
  split <;> omega

/-- Quotients of multiples are as far apart as the quotient of one. -/
theorem sticky_multiple (i step : Nat) {den d : Nat} (positive : 0 < den) (isStep : step / den = d) :
    2 * (i * d) ≤ sticky (i * step) den ∧ sticky (i * step) den ≤ 2 * (i * (d + 1)) + 1 ∧
      sticky (i * step) den + 2 * d ≤ sticky ((i + 1) * step) den + 1 := by
  have low : i * d ≤ i * step / den := by
    rw [Nat.le_div_iff_mul_le positive, Nat.mul_assoc, ← isStep]
    exact Nat.mul_le_mul_left _ (Nat.div_mul_le_self ..)
  have high : i * step / den ≤ i * (d + 1) := by
    refine Nat.div_le_of_le_mul ?_
    rw [Nat.mul_left_comm]
    refine Nat.mul_le_mul_left _ (Nat.le_of_lt ?_)
    rw [Nat.mul_comm, ← Nat.div_lt_iff_lt_mul positive, isStep]
    exact Nat.lt_succ_self d
  have apart : i * step / den + d ≤ (i + 1) * step / den := by
    rw [Nat.le_div_iff_mul_le positive, Nat.add_mul, Nat.succ_mul, ← isStep]
    exact Nat.add_le_add (Nat.div_mul_le_self ..) (Nat.div_mul_le_self ..)
  have here := sticky_bounds (i * step) den
  have next := sticky_bounds ((i + 1) * step) den
  exact ⟨by omega, by omega, by omega⟩

/-- Numbers are told apart where they are half of a thousandth of the larger one apart. -/
theorem unbounded_lt_of_gap {n m d : Nat} {e : Int} (large : 2 ^ 52 ≤ d) (least : 2 ^ (-1074 - e).toNat ≤ d)
    (low : d ≤ n) (apart : n + 2 * d ≤ m + 1) (high : m ≤ 2048 * d + 2049) : unbounded n e < unbounded m e := by
  have bits : 52 ≤ n.log2 := (Nat.le_log2 (by omega)).2 (Nat.le_trans large low)
  have more := log2_mono (n := n) (m := m) (by omega)
  refine unbounded_lt (by omega) ?_ ?_
  · unfold unitOf
    omega
  · rcases Int.le_total (e + m.log2 - 52) (-1074) with coarse | fine
    · rw [unitOf, Int.max_eq_right coarse]
      omega
    · have few : 2 ^ (m.log2 - 52) * 2 ^ 52 ≤ m := by
        rw [← Nat.pow_add, show m.log2 - 52 + 52 = m.log2 by omega]
        exact Nat.log2_self_le (by omega)
      rw [unitOf, Int.max_eq_left fine, show (e + m.log2 - 52 - e).toNat = m.log2 - 52 by omega]
      omega

theorem step_large (isUnity : unity = 2 ^ places * 2 ^ 110) (finite : y.isFinite = true) (some : y.magnitude ≠ 0) :
    2 ^ 52 ≤ unity / y.significand ∧ 2 ^ (-1074 - (-1185 - y.exponent)).toNat ≤ unity / y.significand := by
  have exponent := exponent_le finite
  have digits := places_eq
  have large : 2 ^ (places + 8) ≤ unity / y.significand := by
    have below := y.significand_lt
    rw [Nat.le_div_iff_mul_le (significand_pos some), isUnity, Nat.pow_add, Nat.mul_assoc]
    refine Nat.mul_le_mul_left _ ?_
    unfold hiddenBit at below
    omega
  exact ⟨Nat.le_trans (Nat.pow_le_pow_right (by decide) (by omega)) large,
    Nat.le_trans (Nat.pow_le_pow_right (by decide) (by omega)) large⟩

/-- A step is far more than what one of the first thousand of them is rounded by. -/
theorem stepMagnitude_lt (finite : y.isFinite = true) (some : y.magnitude ≠ 0) (positive : 0 < i) (few : i < 1023) :
    stepMagnitude y i < stepMagnitude y (i + 1) ∨ stepMagnitude y i = infinite := by
  obtain ⟨unity, isUnity⟩ : ∃ unity, unity = 2 ^ places * 2 ^ 110 := ⟨_, rfl⟩
  obtain ⟨large, least⟩ := step_large isUnity finite some
  have left := quotientMagnitude_ofNat isUnity (Nat.lt_trans few (by decide)) y
  have right := quotientMagnitude_ofNat (i := i + 1) isUnity (Nat.lt_trans (Nat.succ_lt_succ few) (by decide)) y
  have bound := stepMagnitude_le y i
  clear isUnity
  obtain ⟨low, -, apart⟩ := sticky_multiple i unity (significand_pos some) rfl
  obtain ⟨-, high, -⟩ := sticky_multiple (i + 1) unity (significand_pos some) rfl
  generalize unity / y.significand = d at large least low high apart
  have atLeast : d ≤ i * d := Nat.le_mul_of_pos_left d positive
  have atMost : (i + 1) * (d + 1) ≤ 1024 * (d + 1) := Nat.mul_le_mul_right _ (by omega)
  have grown := unbounded_lt_of_gap large least (by omega) apart (by omega)
  rw [roundMagnitude_eq (by omega)] at left right
  unfold stepMagnitude at bound ⊢
  split at bound
  · next finiteI =>
      rw [if_pos finiteI, left]
      split
      · rw [right]
        omega
      · omega
  · next beyond =>
      rw [if_neg beyond]
      exact .inr rfl

/-- The first thousand steps come to more each, as long as there are numbers. -/
theorem ofNat_div_lt (finite : y.isFinite = true) (positive : .zero < y) (some : 0 < i) (few : i < 1023) :
    ofNat i / y < ofNat (i + 1) / y ∨ ofNat i / y = .infinity := by
  obtain ⟨-, notZero⟩ := negative_of_pos positive
  rw [ofNat_div_eq finite positive, ofNat_div_eq finite positive]
  rcases stepMagnitude_lt finite notZero some few with less | largest
  · exact .inl (pack_lt_pack less (stepMagnitude_le y _))
  · exact .inr (congrArg (pack false) largest)

end Steps

end Binary64
end Subtitles
