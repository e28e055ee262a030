/-
# Proofs.Player.Ending: how far a script is played

A run shows as many frames as it is asked for, or it stops: then the player that has shown those before is the one
whose next frame fails (`run_cases`). What a player keeps from frame to frame it still has there (`run_kept`). So a
script is played to its end, or up to a fault, or up to a frame that is waited for though the worker has ended
(`Script.play_ends`). The frames are numbered from the first on (`index_of_run`).
-/
import Subtitles.Proofs.Player.Pictures
namespace Subtitles

set_option autoImplicit false

variable {settings : PlaySettings} {script : Script} {shown : List ShownFrame} {ending : Except Stop Player}

namespace Player

variable {p q : Player} {count : Nat}

/-- All frames are shown, or the frame after those shown is not. -/
theorem run_cases (p : Player) (count : Nat) :
    (∃ shown q, p.run count = (shown, .ok q) ∧ shown.length = count) ∨
      ∃ shown q stop, p.run count = (shown, .error stop) ∧ shown.length < count ∧
        p.run shown.length = (shown, .ok q) ∧ q.showNext = .error stop := by
  induction count generalizing p with
  | zero => exact .inl ⟨[], p, rfl, rfl⟩
  | succ count ih =>
      unfold run
      cases shows : p.showNext with
      | error stop => exact .inr ⟨[], p, stop, rfl, Nat.succ_pos count, rfl, shows⟩
      | ok result =>
          obtain ⟨first, p'⟩ := result
          obtain ⟨shown, q, ran, all⟩ | ⟨shown, q, stop, ran, some, here, fails⟩ := ih p'
          · exact .inl ⟨first :: shown, q, by simp only [ran], congrArg Nat.succ all⟩
          · refine .inr ⟨first :: shown, q, stop, by simp only [ran], Nat.succ_lt_succ some, ?_, fails⟩
            simp only [List.length_cons, shows, here]

variable {excused : Nat → Prop} {kept : List Frame → Stream AnyBackend → Prop} {before : List Frame}

/-- What is kept from frame to frame is there after a run. -/
theorem run_kept (upholds : Upholds p.settings excused kept) (holds : kept before p.stream)
    (tallied : Tallied before p.tally) (ran : p.run count = (shown, .ok q)) :
    ∃ after, kept after q.stream ∧ Tallied after q.tally ∧ q.settings = p.settings := by
  induction count generalizing p before shown with
  | zero =>
      obtain ⟨rfl, same⟩ := Prod.mk.inj ran
      obtain rfl := Except.ok.inj same
      exact ⟨before, holds, tallied, rfl⟩
  | succ count ih =>
      unfold run at ran
      cases shows : p.showNext with
      | error stop =>
          rw [shows] at ran
          cases ran
      | ok result =>
          obtain ⟨first, p'⟩ := result
          rw [shows] at ran
          obtain ⟨-, holds', tallied', settings'⟩ := showNext_judged upholds holds tallied shows
          have ends : (p'.run count).2 = .ok q := congrArg Prod.snd ran
          obtain ⟨after, held, counted, same⟩ := ih (settings' ▸ upholds) holds' tallied' (Prod.ext rfl ends)
          exact ⟨after, held, counted, same.trans settings'⟩

/-- The frames are numbered on from those shown before. -/
theorem index_of_run (p : Player) (count : Nat) {i : Nat} {f : ShownFrame} (there : (p.run count).1[i]? = some f) :
    f.index = p.tally.frames + i := by
  induction count generalizing p i with
  | zero => cases there
  | succ count ih =>
      unfold run at there
      obtain ⟨held, out, back, first, tally, -, -, noted, shows⟩ | ⟨fault, shows⟩ | ⟨-, shows⟩ := p.showNext_cases
      · rw [shows] at there
        obtain ⟨index, -, frames, -⟩ := Tally.note_cases noted
        cases i with
        | zero =>
            obtain rfl := Option.some.inj there
            exact index
        | succ i =>
            have later := ih ⟨p.settings, rest back, tally⟩ there
            rw [later, frames, Nat.add_right_comm, Nat.add_assoc]
      · rw [shows] at there
        cases there
      · rw [shows] at there
        cases there

end Player

namespace Script

/-- A script is played to its end. Or it is played up to a frame that is not shown, where there is a fault, or the
frame is waited for and the worker has ended. -/
theorem play_ends (rate : settings.hasRate = true) (played : script.play settings = .ok (shown, ending)) :
    (shown.length = settings.frameCount script ∧ ∃ q, ending = .ok q) ∨
      (shown.length < settings.frameCount script ∧ ∃ p q stop, ending = .error stop ∧
        Player.open? settings script = .ok p ∧
        (p.prime (settings.frameCount script)).run shown.length = (shown, .ok q) ∧ q.showNext = .error stop ∧
        (stop = .stalled → ∃ f, q.readNext.worker = .crashed f)) := by
  obtain ⟨p, opened, ran⟩ := exists_of_play played
  obtain ⟨_, q, ran', all⟩ | ⟨_, q, stop, ran', some, here, fails⟩ :=
    (p.prime (settings.frameCount script)).run_cases (settings.frameCount script)
  · obtain ⟨rfl, rfl⟩ := Prod.mk.inj (ran.symm.trans ran')
    exact .inl ⟨all, q, rfl⟩
  · obtain ⟨rfl, rfl⟩ := Prod.mk.inj (ran.symm.trans ran')
    refine .inr ⟨some, p, q, stop, rfl, opened, here, fails, ?_⟩
    rintro rfl
    obtain ⟨kept, upholds, attends, holds, tallied, same, -⟩ :=
      Player.primed_of_open? rate opened (settings.frameCount script)
    obtain ⟨after, held, counted, same'⟩ := Player.run_kept (same ▸ upholds) holds tallied here
    obtain ⟨_, _, _, _, _, -, -, -, shows⟩ | ⟨_, shows⟩ | ⟨stalled, -⟩ := q.showNext_cases
    · cases shows.symm.trans fails
    · cases shows.symm.trans fails
    · rw [Player.acquireNext, Player.readNext, counted.frames, same', same] at stalled
      rw [Player.readNext, counted.frames, same', same]
      exact attends after q.stream held stalled

end Script
end Subtitles
