/-
Double precision numbers as IEEE 754 words, with their order.

A word is a sign bit over a 63-bit magnitude. Magnitudes up to that of infinity
are numbers and grow with their absolute value, so comparing two numbers is
comparing two integers, their keys; both zeros have the key 0. Larger magnitudes
are not numbers and compare with nothing. `lt_trans`, `lt_asymm` and
`lt_or_same_or_lt` say that `<` is a strict order, total on what is a number.
-/
namespace Subtitles

set_option autoImplicit false

/-- A double precision number, held as its word. Equality of the type is identity of
words; equality of numbers is `Binary64.Same`. -/
structure Binary64 where
  bits : UInt64
  deriving DecidableEq, Inhabited, Repr

namespace Binary64

/-- The magnitude of infinity, the largest that still is a number. -/
def infinite : Nat := 0x7ff0000000000000

/-- The bit of the sign. -/
def signBit : Nat := 0x8000000000000000

/-- The leading bit of a normal significand, which the word leaves out. -/
def hiddenBit : Nat := 0x10000000000000

def negative (x : Binary64) : Bool := decide (signBit ≤ x.bits.toNat)

def magnitude (x : Binary64) : Nat := x.bits.toNat % signBit

/-- The word of a sign over a magnitude below the sign bit. -/
def pack (negative : Bool) (magnitude : Nat) : Binary64 :=
  ⟨UInt64.ofNat (magnitude + if negative then signBit else 0)⟩

def zero : Binary64 := ⟨0⟩
def one : Binary64 := ⟨0x3ff0000000000000⟩
def infinity : Binary64 := ⟨0x7ff0000000000000⟩
def nan : Binary64 := ⟨0x7ff8000000000000⟩

def isNaN (x : Binary64) : Bool := decide (infinite < x.magnitude)

def isInfinite (x : Binary64) : Bool := decide (x.magnitude = infinite)

def isFinite (x : Binary64) : Bool := decide (x.magnitude < infinite)

/-- The position of a number among all numbers; both zeros stand at 0. -/
def key (x : Binary64) : Int := if x.negative then -(x.magnitude : Int) else x.magnitude

/-- Both are numbers. -/
def Comparable (x y : Binary64) : Prop := x.isNaN = false ∧ y.isNaN = false

instance (x y : Binary64) : Decidable (x.Comparable y) := inferInstanceAs (Decidable (_ ∧ _))

instance : LT Binary64 where
  lt x y := x.Comparable y ∧ x.key < y.key

instance : LE Binary64 where
  le x y := x.Comparable y ∧ x.key ≤ y.key

instance (x y : Binary64) : Decidable (x < y) :=
  inferInstanceAs (Decidable (x.Comparable y ∧ x.key < y.key))

instance (x y : Binary64) : Decidable (x ≤ y) :=
  inferInstanceAs (Decidable (x.Comparable y ∧ x.key ≤ y.key))

/-- Equality of numbers: the two zeros are the same, a word that is no number is the same
as nothing, not even itself. -/
def Same (x y : Binary64) : Prop := x.Comparable y ∧ x.key = y.key

instance (x y : Binary64) : Decidable (x.Same y) := inferInstanceAs (Decidable (_ ∧ _))

/-! ## The order -/

theorem lt_def {x y : Binary64} : x < y ↔ x.Comparable y ∧ x.key < y.key := Iff.rfl

theorem le_def {x y : Binary64} : x ≤ y ↔ x.Comparable y ∧ x.key ≤ y.key := Iff.rfl

theorem same_def {x y : Binary64} : x.Same y ↔ x.Comparable y ∧ x.key = y.key := Iff.rfl

theorem Comparable.symm {x y : Binary64} (h : x.Comparable y) : y.Comparable x := ⟨h.2, h.1⟩

theorem lt_irrefl (x : Binary64) : ¬ x < x := fun h => Int.lt_irrefl _ h.2

theorem lt_trans {x y z : Binary64} (h : x < y) (k : y < z) : x < z :=
  ⟨⟨h.1.1, k.1.2⟩, Int.lt_trans h.2 k.2⟩

theorem lt_asymm {x y : Binary64} (h : x < y) : ¬ y < x :=
  fun k => lt_irrefl x (lt_trans h k)

theorem lt_or_same_or_lt {x y : Binary64} (h : x.Comparable y) : x < y ∨ x.Same y ∨ y < x := by
  rcases Int.lt_trichotomy x.key y.key with k | k | k
  · exact .inl ⟨h, k⟩
  · exact .inr (.inl ⟨h, k⟩)
  · exact .inr (.inr ⟨h.symm, k⟩)

theorem not_lt_of_same {x y : Binary64} (h : x.Same y) : ¬ x < y :=
  fun k => Int.ne_of_lt k.2 h.2

theorem same_self_iff {x : Binary64} : x.Same x ↔ x.isNaN = false :=
  ⟨fun h => h.1.1, fun h => ⟨⟨h, h⟩, rfl⟩⟩

/-! ## Significand and exponent

A finite number is its significand times two to its exponent. Numbers below the smallest
normal one share its exponent. -/

def significand (x : Binary64) : Nat :=
  if x.magnitude < hiddenBit then x.magnitude else x.magnitude % hiddenBit + hiddenBit

def exponent (x : Binary64) : Int :=
  if x.magnitude < hiddenBit then -1074 else (x.magnitude / hiddenBit : Nat) - 1075

/-- The significand with the sign of the number. -/
def signed (x : Binary64) : Int :=
  if x.negative then -(x.significand : Int) else x.significand

theorem significand_lt (x : Binary64) : x.significand < 2 * hiddenBit := by
  unfold significand hiddenBit
  split <;> omega

end Binary64
end Subtitles
