/-
# Proofs.Decimal.Reading: which texts are natural numbers

A numeral is one or more decimal digits, the highest first, perhaps after a plus sign. Zeros may lead,
and there is no bound. `natural?` reads the numerals and nothing else, each as the number its digits
stand for (`natural?_eq_some_iff`); the digits that a number is printed with are among them
(`numeral_toDigits`).
-/
import Subtitles.Decimal.Reading
import Mathlib.Data.List.Basic
import Mathlib.Data.Nat.Digits.Defs
namespace Subtitles

set_option autoImplicit false

namespace Reading

variable {c : Char} {cs : List Char} {d n : Nat} {ds : List Nat}

/-- Some digits, the highest first, and the number they stand for. -/
def Digits (cs : List Char) (n : Nat) : Prop :=
  ∃ ds : List Nat, ds ≠ [] ∧ (∀ d ∈ ds, d < 10) ∧ cs = ds.map Nat.digitChar ∧
    n = Nat.ofDigits 10 ds.reverse

/-- Some digits, perhaps after a plus sign. -/
def Numeral (cs : List Char) (n : Nat) : Prop := Digits cs n ∨ ∃ rest, cs = '+' :: rest ∧ Digits rest n

/-! ## Single digits -/

theorem isDigit_iff : isDigit c = true ↔ 48 ≤ c.toNat ∧ c.toNat ≤ 57 := by
  simp only [isDigit, decide_eq_true_eq, Char.le_def, UInt32.le_iff_toNat_le]
  rfl

theorem isDigit_digitChar (small : d < 10) : isDigit d.digitChar = true := by
  rw [isDigit_iff, Nat.toNat_digitChar_of_lt_ten small]
  omega

theorem digitValue_digitChar (small : d < 10) : digitValue d.digitChar = d :=
  Nat.toNat_digitChar_sub_48_of_lt_ten small

theorem digitValue_lt (digit : isDigit c = true) : digitValue c < 10 := by
  have range := isDigit_iff.1 digit
  rw [digitValue]
  omega

theorem digitChar_digitValue (digit : isDigit c = true) : (digitValue c).digitChar = c := by
  have range := isDigit_iff.1 digit
  apply Char.toNat_inj.1
  rw [Nat.toNat_digitChar_of_lt_ten (digitValue_lt digit), digitValue]
  omega

/-! ## Numerals -/

/-- The reader's sum over the digits, from the highest on, is their positional value. -/
theorem natOf_map (small : ∀ d ∈ ds, d < 10) : natOf (ds.map Nat.digitChar) = Nat.ofDigits 10 ds.reverse := by
  rw [natOf, List.foldl_map, Nat.ofDigits_eq_foldr, List.foldr_reverse]
  refine List.foldl_ext _ _ _ fun m d member => ?_
  rw [digitValue_digitChar (small d member), Nat.cast_id, Nat.add_comm]

theorem digits?_eq_some_iff : digits? cs = some n ↔ Digits cs n := by
  constructor
  · intro read
    rw [digits?, Option.ite_none_right_eq_some] at read
    obtain ⟨⟨some, all⟩, value⟩ := read
    have digits : ∀ c ∈ cs, isDigit c = true := List.all_eq_true.1 all
    have same : (cs.map digitValue).map Nat.digitChar = cs := by
      rw [List.map_map]
      exact (List.map_congr_left fun c member => digitChar_digitValue (digits c member)).trans (List.map_id' cs)
    have small : ∀ d ∈ cs.map digitValue, d < 10 := by
      intro d member
      obtain ⟨c, inside, rfl⟩ := List.mem_map.1 member
      exact digitValue_lt (digits c inside)
    refine ⟨cs.map digitValue, by simpa using some, small, same.symm, ?_⟩
    rw [← natOf_map small, same, Option.some.inj value]
  · rintro ⟨ds, some, small, rfl, rfl⟩
    have all : (ds.map Nat.digitChar).all isDigit = true := by
      rw [List.all_map, List.all_eq_true]
      exact fun d member => isDigit_digitChar (small d member)
    rw [digits?, if_pos ⟨by simpa using some, all⟩, natOf_map small]

/-- A sign is no digit. -/
theorem not_digits_plus : ¬ Digits ('+' :: cs) n := by
  rw [← digits?_eq_some_iff, digits?, if_neg (by simp [isDigit])]
  exact nofun

theorem natural?_eq_some_iff : natural? cs = some n ↔ Numeral cs n := by
  fun_cases natural? cs with
  | case1 rest => simp [Numeral, digits?_eq_some_iff, not_digits_plus]
  | case2 _ unsigned =>
      have bare : ¬ ∃ rest, cs = '+' :: rest ∧ Digits rest n := fun ⟨rest, signed, _⟩ => unsigned rest signed
      rw [Numeral, digits?_eq_some_iff, or_iff_left bare]

/-- A number is printed as one of its numerals. -/
theorem numeral_toDigits (n : Nat) : Numeral (Nat.toDigits 10 n) n := by
  have all : (Nat.toDigits 10 n).all isDigit = true := by
    rw [List.all_eq_true]
    intro c member
    have digit := Char.isDigit_iff_toNat.1 (Nat.isDigit_of_mem_toDigits (by decide) (by decide) member)
    exact isDigit_iff.2 digit
  have value : natOf (Nat.toDigits 10 n) = n := by
    have sum := Nat.ofDigitChars_ten_toDigits (n := n)
    rwa [Nat.ofDigitChars_eq_foldl] at sum
  exact .inl (digits?_eq_some_iff.1 (by rw [digits?, if_pos ⟨Nat.toDigits_ne_nil, all⟩, value]))

theorem Digits.isDigit_of_mem (digits : Digits cs n) (member : c ∈ cs) : isDigit c = true := by
  obtain ⟨ds, -, small, rfl, -⟩ := digits
  obtain ⟨d, among, rfl⟩ := List.mem_map.1 member
  exact isDigit_digitChar (small d among)

theorem Numeral.plus_or_isDigit (numeral : Numeral cs n) (member : c ∈ cs) : c = '+' ∨ isDigit c = true := by
  obtain unsigned | ⟨rest, rfl, digits⟩ := numeral
  · exact .inr (unsigned.isDigit_of_mem member)
  · exact (List.mem_cons.1 member).imp_right digits.isDigit_of_mem

end Reading
end Subtitles
