/-
# Proofs.Session.Turn: what an action does to the stream

An action does one thing to the stream before the worker gets its turn (`Session.stream_perform`).
Where it meets a fault, or is refused, the stream stays as it was. What the caller holds changes with
an acquire or a release only (`Session.held_perform`). Then the worker has its turn
(`Session.step_eq`).
-/
import Subtitles.Session
import Subtitles.Proofs.Ended
namespace Subtitles

set_option autoImplicit false

namespace Session

variable {σ : Type} [Backend σ]

/-- The stream after an action, and before the worker's turn. -/
def turn (s : Session σ) : Action → Stream σ
  | .offer p => s.stream.offer p
  | .request pts => s.stream.request pts
  | .prepare pts => (s.stream.prepare pts).2
  | .drain => if s.stream.source.isOpen then s.stream else s.stream.drain.2
  | .text pts => (s.stream.text pts).2
  | .control command => (s.stream.control command).2
  | .select on => s.stream.select on
  | .video params => s.stream.noteVideo params
  | .reset => s.stream.reset.toOption.getD s.stream
  | .acquire g pts => (s.stream.acquire g pts).2
  | .release => (s.held.bind fun f => (s.stream.release f).toOption).getD s.stream
  | .send p => ((s.stream.source.send? p).map fun source => { s.stream with source }).getD s.stream
  | .close => { s.stream with source := s.stream.source.closeSender }
  | .overtake pts g => (s.overtake pts g).2.stream

omit [Backend σ] in
theorem stream_after (s : Session σ) (answer : Answer) (result : Except Fault (Stream σ)) :
    (s.after answer result).2.stream = result.toOption.getD s.stream := by
  cases result <;> rfl

theorem stream_perform (s : Session σ) (a : Action) : (s.perform a).2.stream = s.turn a := by
  cases a with
  | drain =>
      simp only [perform, turn]
      split
      · rfl
      · cases s.stream.drain with
        | mk done stream => cases done <;> rfl
  | reset => exact stream_after s .nothing _
  | acquire g pts =>
      simp only [perform, turn, acquire]
      cases s.stream.acquire g pts with
      | mk result stream => cases result <;> rfl
  | release =>
      simp only [perform, turn, release]
      cases s.held with
      | none => rfl
      | some f => exact stream_after _ (.flag true) _
  | send p =>
      simp only [perform, turn]
      cases s.stream.source.send? p <;> rfl
  | _ => rfl

/-- A reset is made, unless it meets a fault. -/
theorem turn_reset_cases (s : Session σ) : s.turn .reset = s.stream ∨ s.stream.reset = .ok (s.turn .reset) :=
  toOption_getD_cases s.stream.reset s.stream

/-- The frame that is held is given back, unless there is none or it meets a fault. -/
theorem turn_release_cases (s : Session σ) :
    s.turn .release = s.stream ∨ ∃ f, s.held = some f ∧ s.stream.release f = .ok (s.turn .release) := by
  rw [turn]
  cases s.held with
  | none => exact .inl rfl
  | some f => exact (toOption_getD_cases (s.stream.release f) s.stream).imp_right fun released => ⟨f, rfl, released⟩

/-- A packet is sent, unless the source takes none. -/
theorem turn_send_cases (s : Session σ) (p : Packet) :
    s.turn (.send p) = s.stream ∨
      ∃ source, s.stream.source.send? p = some source ∧ s.turn (.send p) = { s.stream with source } := by
  rw [turn]
  cases s.stream.source.send? p with
  | none => exact .inl rfl
  | some source => exact .inr ⟨source, rfl, rfl⟩

/-- What is neither an acquire nor a release leaves alone what the caller holds. -/
theorem held_perform (s : Session σ) {a : Action} (alone : ∀ pts g, a ≠ .overtake pts g)
    (keeps : ∀ g pts, a ≠ .acquire g pts) (stays : a ≠ .release) : (s.perform a).2.held = s.held := by
  cases a with
  | drain =>
      simp only [perform]
      split
      · rfl
      · split <;> rfl
  | reset =>
      simp only [perform, after]
      split <;> rfl
  | send p =>
      simp only [perform]
      split <;> rfl
  | acquire g pts => exact absurd rfl (keeps g pts)
  | release => exact absurd rfl stays
  | overtake pts g => exact absurd rfl (alone pts g)
  | _ => rfl

/-! ## The worker's turn -/

theorem run_append (s : Session σ) (as bs : List Action) :
    s.run (as ++ bs) = ((s.run as).1 ++ ((s.run as).2.run bs).1, ((s.run as).2.run bs).2) := by
  induction as generalizing s with
  | nil => rfl
  | cons a as ih => simp [run, ih]

/-- What the actions of a run came to, told by their answers. -/
def gathered {α : Type} (f : Action → Answer → Option α) (s : Session σ) (actions : List Action) : List α :=
  (actions.zip (s.run actions).1).filterMap fun (a, answer) => f a answer

theorem gathered_cons {α : Type} (f : Action → Answer → Option α) (s : Session σ) (a : Action) (rest : List Action) :
    s.gathered f (a :: rest) = (f a (s.step a).1).toList ++ (s.step a).2.gathered f rest := by
  rw [gathered, run, List.zip_cons_cons, List.filterMap_cons]
  dsimp only
  cases f a (s.step a).1 <;> rfl

/-- An action that does not wait for a frame to come back. -/
theorem step_eq {s : Session σ} {a : Action} (goesOn : (s.holdsBackend && a.needsBackend) = false) :
    s.step a = ((s.perform a).1, ⟨(s.turn a).settle, (s.perform a).2.held⟩) := by
  rw [step, goesOn, if_neg Bool.false_ne_true, ← stream_perform]

/-- One that waits changes nothing. -/
theorem step_of_waits {s : Session σ} {a : Action} (waits : (s.holdsBackend && a.needsBackend) = true) :
    s.step a = (.refused .frameHeld, s) := if_pos waits

/-- It did not wait where it has another answer. -/
theorem goesOn_of_answer {s t : Session σ} {a : Action} {answer : Answer} (stepped : s.step a = (answer, t))
    (answered : answer ≠ .refused .frameHeld) : (s.holdsBackend && a.needsBackend) = false := by
  cases waits : s.holdsBackend && a.needsBackend with
  | false => rfl
  | true =>
      rw [step_of_waits waits] at stepped
      exact absurd (congrArg Prod.fst stepped).symm answered

/-- While nothing is held, nothing holds an action up. -/
theorem step_of_free {s : Session σ} (free : s.held = none) (a : Action) :
    s.step a = ((s.perform a).1, { (s.perform a).2 with stream := (s.perform a).2.stream.settle }) := by
  simp [step, holdsBackend, free]

theorem step_of_acquire (s : Session σ) (g : Geometry) (pts : Binary64) :
    s.step (.acquire g pts) =
      ((s.acquire g pts).1, ⟨(s.acquire g pts).2.stream.settle, (s.acquire g pts).2.held⟩) := by
  simp [Session.step, Action.needsBackend, perform]

/-- The stream hands a frame out, and the worker gets its turn. -/
theorem step_acquire {s s' : Session σ} {g : Geometry} {pts : Binary64} {f : HeldFrame}
    (answer : s.step (.acquire g pts) = (.frame f, s')) :
    ∃ t, s.stream.acquire g pts = (.frame f, t) ∧ s'.stream = t.settle := by
  have free : (s.holdsBackend && Action.needsBackend (.acquire g pts)) = false := Bool.and_false _
  rw [step, free, if_neg Bool.false_ne_true] at answer
  simp only [perform, acquire] at answer
  cases acquired : s.stream.acquire g pts with
  | mk result t =>
      rw [acquired] at answer
      cases result with
      | frame f' =>
          obtain ⟨given, rfl⟩ := Prod.mk.inj answer
          obtain rfl := Answer.frame.inj given
          exact ⟨t, rfl, rfl⟩
      | fault fault => cases congrArg Prod.fst answer
      | stalled => cases congrArg Prod.fst answer

/-- A frame that can be given back is. -/
theorem step_release {s : Session σ} {f : HeldFrame} {t : Stream σ} (out : s.held = some f)
    (released : s.stream.release f = .ok t) : s.step .release = (.flag true, ⟨t.settle, none⟩) := by
  simp [step, Action.needsBackend, perform, release, out, released, after]

end Session
end Subtitles
