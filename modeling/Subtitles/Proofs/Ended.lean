/-
# Proofs.Ended: computations that end

A row of computations ends without a fault where each of them does, and each goes on from what the
one before it came to.
-/
namespace Subtitles

set_option autoImplicit false

variable {ε α β : Type}

theorem bind_eq_ok_iff {x : Except ε α} {k : α → Except ε β} {b : β} :
    x >>= k = .ok b ↔ ∃ a, x = .ok a ∧ k a = .ok b := by
  cases x with
  | error fault => simp [bind, Except.bind]
  | ok a => simp [bind, Except.bind]

theorem of_map_eq_ok {x : Except ε α} {f : α → β} {b : β} (ended : x.map f = .ok b) :
    ∃ a, x = .ok a ∧ f a = b := by
  cases x with
  | error fault => exact absurd ended nofun
  | ok a => exact ⟨a, rfl, Except.ok.inj ended⟩

theorem exists_ok {x : Except ε α} (ends : x.toBool = true) : ∃ a, x = .ok a := by
  cases x with
  | error fault => cases ends
  | ok a => exact ⟨a, rfl⟩

/-- Where a fault leaves all as it was. -/
theorem toOption_getD_cases (x : Except ε α) (before : α) :
    x.toOption.getD before = before ∨ x = .ok (x.toOption.getD before) := by
  cases x with
  | error fault => exact .inl rfl
  | ok a => exact .inr rfl

end Subtitles
