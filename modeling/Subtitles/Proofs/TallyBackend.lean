/-
# Proofs.TallyBackend: its change numbers are sound, and its renders return
-/
import Subtitles.Proofs.Calls
import Subtitles.TallyBackend
namespace Subtitles

set_option autoImplicit false

namespace TallyBackend

open LoggedBackend (Served SoundChanges Returns)

/-- What the backend remembers of its last render is what that render showed. -/
def Remembers (b : LoggedBackend TallyBackend) : Prop :=
  ∀ l, b.state.last = some l →
    ∃ before, lastFrame? b.calls = some before ∧ before.format = .alpha8 ∧ before.parts = [dot l.1]

theorem remembers_of_served {fresh : TallyBackend} (unused : fresh.last = none)
    {b : LoggedBackend TallyBackend} (served : Served fresh b) : Remembers b := by
  induction served with
  | start => exact fun l last => absurd (unused.symm.trans last) nofun
  | decode p _ ih => exact ih
  | render purpose g pts _ ih =>
      rintro l ⟨⟩
      exact ⟨_, rfl, rfl, rfl⟩
  | text pts _ ih => exact ih
  | reset _ ih => exact nofun
  | select on _ ih => exact ih
  | @control b c _ ih =>
      intro l last
      cases c <;> exact ih l last

/-- A frame with the number 0 comes after one of as many packets. -/
theorem soundChanges {fresh : TallyBackend} (unused : fresh.last = none) : SoundChanges fresh := by
  intro b served purpose g pts frame answer unchanged before logged
  have answer' : Except.ok (b.state.render g).1 = (.ok frame : Except Fault Frame) := answer
  obtain rfl := Except.ok.inj answer'
  obtain ⟨l, last, same, -⟩ : ∃ l, b.state.last = some l ∧ l.1 = b.state.decoded ∧ l.2.Same g := by
    have number : (b.state.render g).1.changeId = 0 := by simpa [Frame.isUnchanged] using unchanged
    simp only [render] at number
    split at number
    · next same =>
        obtain ⟨-, remembered⟩ := (Bool.and_eq_true _ _).mp same
        simpa [Option.any_eq_true] using remembered
    · exact absurd number (Nat.succ_ne_zero _)
  obtain ⟨shown, logged', format, parts⟩ := remembers_of_served unused served l last
  obtain rfl := Option.some.inj (logged'.symm.trans logged)
  exact ⟨format.symm, by rw [parts, same]; rfl⟩

theorem returns (fresh : TallyBackend) : Returns fresh := fun _ _ _ _ => ⟨_, rfl⟩

end TallyBackend
end Subtitles
