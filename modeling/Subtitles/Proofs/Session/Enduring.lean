/-
# Proofs.Session.Enduring: only a render that faults ends the worker

On a consistent cache the worker meets no fault of its own. So it is still there after its turn exactly if
every render it came to gave a frame (`Stream.endures_iff`). Over a run it gets one turn after each action
that does not wait, and no action ends it, so it is still there in the end exactly if this holds of every
turn (`Session.endures_iff`).
-/
import Subtitles.Proofs.Session.Cached
import Subtitles.Proofs.Session.Rest
namespace Subtitles

set_option autoImplicit false

variable {σ : Type} [Backend σ]

namespace Stream

variable {s t : Stream σ} {lost : List Handle}

/-- If the worker comes to a render next, it gives a frame. -/
def RendersNext (s : Stream σ) : Prop :=
  ∀ job pts, s.worker = .running → s.pending = [] → s.nextJob = some (job, pts) →
    ∃ frame, (Backend.render s.geometry pts s.backend.state).1 = .ok frame

/-- Every render that the worker comes to in its turn gives a frame, after however many rounds. -/
def WorkerRenders (s : Stream σ) : Prop := ∀ rounds, (s.settleWithin rounds).RendersNext

theorem settleWithin_add (first later : Nat) (s : Stream σ) :
    s.settleWithin (first + later) = (s.settleWithin first).settleWithin later := by
  induction first generalizing s with
  | zero => rw [Nat.zero_add, settleWithin]
  | succ first ih =>
      rw [Nat.succ_add, settleWithin, settleWithin]
      cases stepped : s.workerStep with
      | none => exact (settleWithin_of_rest stepped later).symm
      | some t => exact ih t

/-- A round goes well if its render does. -/
theorem RendersNext.round (renders : s.RendersNext) (con : s.cache.Consistent lost) (round : Round s t) :
    t.worker = .running := by
  cases round with
  | decode running => exact running
  | @render job pts running decoded next =>
      obtain ⟨frame, answer⟩ := renders job pts running decoded next
      obtain ⟨-, d, -, became, -⟩ | ⟨f, b, faulted, -⟩ := carryOut_cases con (nextJob_spec next).2.1 pts
      · rw [became]
        exact running
      · rw [← s.backend.answer_render .ahead, faulted] at answer
        cases answer

/-- Otherwise it ends the worker. -/
theorem crashed_of_not_rendersNext (con : s.cache.Consistent lost) (faults : ¬ s.RendersNext) :
    ∃ f, (s.settleWithin 1).worker = .crashed f := by
  simp only [RendersNext, not_forall] at faults
  obtain ⟨job, pts, running, decoded, next, faults⟩ := faults
  have stepped : s.workerStep = some (s.carryOut job pts) := by
    rw [workerStep, if_neg (not_not_intro running), if_neg (not_not_intro decoded), next]
    rfl
  rw [settleWithin, stepped]
  show ∃ f, (s.carryOut job pts).worker = .crashed f
  obtain ⟨frame, d, answer, -⟩ | ⟨f, b, -, became, -⟩ := carryOut_cases con (nextJob_spec next).2.1 pts
  · exact absurd ⟨frame, (s.backend.answer_render .ahead ..).symm.trans (congrArg Prod.fst answer)⟩ faults
  · exact ⟨f, by rw [became]⟩

theorem consistent_settleWithin (con : s.cache.Consistent lost) (rounds : Nat) :
    ∃ lost', (s.settleWithin rounds).cache.Consistent lost' :=
  settleWithin_induction (P := fun t => ∃ lost', t.cache.Consistent lost') rounds ⟨lost, con⟩
    fun _ _ ⟨_, con⟩ round => round.consistent con

/-- A worker that sleeps after its turn has no further round. -/
theorem rest_settle (con : s.cache.Consistent lost) : s.settle.workerStep = none := by
  by_cases running : s.settle.worker = .running
  · exact rest_of_idle (settle_idle con running)
  · exact workerStep_of_not_running running

/-- The worker is there after its turn exactly if its renders all gave frames. -/
theorem endures_iff (con : s.cache.Consistent lost) (there : ∀ f, s.worker ≠ .crashed f) :
    (∀ f, s.settle.worker ≠ .crashed f) ↔ s.WorkerRenders := by
  constructor
  · intro endures rounds
    by_contra faults
    obtain ⟨lost', con'⟩ := consistent_settleWithin con rounds
    obtain ⟨f, crashed⟩ := crashed_of_not_rendersNext con' faults
    rw [← settleWithin_add] at crashed
    have stopped : (s.settleWithin (rounds + 1)).worker ≠ .running := by
      rw [crashed]
      exact nofun
    have turn : s.settle = s.settleWithin (rounds + 1) := calc
      s.settle = s.settle.settleWithin (rounds + 1) := (settleWithin_of_rest (rest_settle con) _).symm
      _ = s.settleWithin (rounds + 1 + (s.cache.queue.length + 1)) := by
          rw [settle, ← settleWithin_add, Nat.add_comm]
      _ = s.settleWithin (rounds + 1) := by
          rw [settleWithin_add, settleWithin_of_rest (workerStep_of_not_running stopped)]
    exact endures f ((congrArg worker turn).trans crashed)
  · intro renders
    refine (?_ : ∀ rounds f, (s.settleWithin rounds).worker ≠ .crashed f) _
    intro rounds
    induction rounds with
    | zero => exact there
    | succ rounds ih =>
        obtain ⟨lost', con'⟩ := consistent_settleWithin con rounds
        rw [settleWithin_add, settleWithin]
        cases stepped : (s.settleWithin rounds).workerStep with
        | none => exact ih
        | some t =>
            intro f crashed
            cases crashed.symm.trans ((renders rounds).round con' (round_of_workerStep stepped))

end Stream

namespace Session

variable {s : Session σ} {fresh : σ} {n : Nat}

/-- In each turn that the worker gets in a run, every render gives a frame. -/
def WorkerRenders (s : Session σ) (actions : List Action) : Prop :=
  ∀ earlier a later, actions = earlier ++ a :: later →
    ((s.run earlier).2.holdsBackend && a.needsBackend) = false → ((s.run earlier).2.turn a).WorkerRenders

theorem workerRenders_cons {a : Action} {rest : List Action} : s.WorkerRenders (a :: rest) ↔
    ((s.holdsBackend && a.needsBackend) = false → (s.turn a).WorkerRenders) ∧ (s.step a).2.WorkerRenders rest := by
  constructor
  · intro renders
    exact ⟨renders [] a rest rfl, fun earlier b later parts => renders (a :: earlier) b later (congrArg (a :: ·) parts)⟩
  · rintro ⟨first, others⟩ earlier b later parts
    cases earlier with
    | nil =>
        obtain ⟨rfl, rfl⟩ := List.cons.inj parts
        exact first
    | cons c earlier =>
        obtain ⟨rfl, left⟩ := List.cons.inj parts
        exact others earlier b later left

/-- The worker is there after a run exactly if its renders all gave frames. -/
theorem endures_iff (sound : Underway.Sound fresh n ⟨s.stream, none⟩) (there : ∀ f, s.stream.worker ≠ .crashed f)
    {actions : List Action} (alone : ∀ pts g, .overtake pts g ∉ actions) :
    (∀ f, (s.run actions).2.stream.worker ≠ .crashed f) ↔ s.WorkerRenders actions := by
  induction actions generalizing s with
  | nil => exact iff_of_true there fun earlier a later parts => by simp at parts
  | cons a rest ih =>
      have alone' : ∀ pts g, a ≠ .overtake pts g := fun pts g same => alone pts g (same ▸ List.mem_cons_self)
      have aloneLater : ∀ pts g, .overtake pts g ∉ rest := fun pts g member =>
        alone pts g (List.mem_cons_of_mem _ member)
      rw [workerRenders_cons]
      show (∀ f, ((s.step a).2.run rest).2.stream.worker ≠ .crashed f) ↔ _
      cases waits : s.holdsBackend && a.needsBackend with
      | true =>
          rw [step_of_waits waits, ih sound there aloneLater]
          exact (and_iff_right nofun).symm
      | false =>
          have turned := sound.turn alone'
          have turn := Stream.endures_iff turned.consistent (s := s.turn a) fun f => by
            rw [worker_turn alone']
            exact there f
          have stream : (s.step a).2.stream = (s.turn a).settle := by rw [step_eq waits]
          constructor
          · intro endures
            have first := not_crashed_of_run aloneLater endures
            rw [stream] at first
            refine ⟨fun _ => turn.1 first, (ih ?_ (stream ▸ first) aloneLater).1 endures⟩
            exact stream ▸ turned.settle first
          · rintro ⟨first, others⟩
            have first := turn.2 (first rfl)
            exact (ih (stream ▸ turned.settle first) (stream ▸ first) aloneLater).2 others

/-- So it is in a session just opened. -/
theorem endures_opened_iff (codec : Codec) (source : Source) (options : Options) (fresh : σ) {actions : List Action}
    (alone : ∀ pts g, .overtake pts g ∉ actions) :
    (∀ f, ((opened codec source options fresh).run actions).2.stream.worker ≠ .crashed f) ↔
      (opened codec source options fresh).WorkerRenders actions := by
  have reached : Underway.Reached (.ofBackend codec source options fresh)
      ⟨(opened codec source options fresh).stream, none⟩ := .start
  refine endures_iff reached.sound ?_ alone
  intro f
  show (if _ then Worker.running else .absent) ≠ .crashed f
  split <;> exact nofun

end Session

/-- The mock backend renders whatever it is asked for. -/
theorem TallyBackend.workerRenders (s : Session TallyBackend) (actions : List Action) : s.WorkerRenders actions :=
  fun _ _ _ _ _ _ _ _ _ _ _ => ⟨_, rfl⟩

end Subtitles
