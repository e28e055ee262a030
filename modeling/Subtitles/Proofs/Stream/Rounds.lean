/-
# Proofs.Stream.Rounds: what the worker does, and that it comes to rest

A round of the worker decodes what is pending, or carries out a job of the cache (`Round`). On a
consistent cache a job meets no fault but that of the render, and gives the frame to its entry and
to no other (`carryOut_cases`). What every round keeps is kept until the worker sleeps
(`settle_induction`); and it does sleep with nothing left to do, because every round leaves less
(`settle_idle`).
-/
import Subtitles.Proofs.Cache.Jobs
import Subtitles.Stream.Worker
namespace Subtitles

set_option autoImplicit false

namespace Stream

variable {σ : Type} [Backend σ] {s s' : Stream σ}

omit [Backend σ] in
theorem nextJob_spec {job : Job} {pts : Binary64} (next : s.nextJob = some (job, pts)) :
    s.geometry.isVoid = false ∧ s.cache.firstPending = some job ∧ s.cache.pts? job.entry = some pts := by
  unfold nextJob at next
  split at next
  · simp at next
  · next visible =>
      obtain ⟨found, first, time⟩ := Option.bind_eq_some_iff.1 next
      obtain ⟨time, timed, same⟩ := Option.map_eq_some_iff.1 time
      cases same
      exact ⟨by simpa using visible, first, timed⟩

/-- What a round of the worker does with a job. -/
def carryOut (job : Job) (pts : Binary64) (s : Stream σ) : Stream σ :=
  match s.startRender job pts with
  | (some r, s) => s.finishRender r
  | (none, s) => s

/-- The render call before the one for a job was for its predecessor. -/
def follows (job : Job) (s : Stream σ) : Bool :=
  (job.predecessor.bind s.cache.pts?).any fun p => s.backend.lastWas p s.geometry

/-- The worker's frame goes to the entry, and only to it. -/
theorem carryOut_cases {lost : List Handle} {job : Job} (con : s.cache.Consistent lost)
    (first : s.cache.firstPending = some job) (pts : Binary64) :
    (∃ frame d, s.backend.render .ahead s.geometry pts = (.ok frame, (s.backend.render .ahead s.geometry pts).2) ∧
      s.carryOut job pts = { s with cache := d, backend := (s.backend.render .ahead s.geometry pts).2 } ∧
      d.Consistent lost ∧ d.queue = s.cache.queue ∧ Cache.Carries (some job.entry) s.cache d ∧
      d.isRendered job.entry = true ∧
      d.frame? job.entry = job.shown s.cache (s.follows job && frame.isUnchanged) frame) ∨
    ∃ f b, s.backend.render .ahead s.geometry pts = (.error f, (s.backend.render .ahead s.geometry pts).2) ∧
      s.carryOut job pts =
        { s with cache := b, backend := (s.backend.render .ahead s.geometry pts).2, worker := .crashed f } ∧
      b.Consistent (job.references ++ lost) ∧ b.queue = s.cache.queue ∧ Cache.Carries none s.cache b := by
  obtain ⟨queued, pending, predecessor⟩ := Cache.firstPending_spec first
  obtain ⟨b, begun, conB, leaves, back, queueB⟩ :=
    con.begin (con.live_of_queued queued) fun p same => con.live_of_queued (predecessor p same).1
  have carriesB : Cache.Carries none s.cache b :=
    con.carries_of_leaves conB leaves fun h member => by rwa [queueB] at member
  cases answer : s.backend.render .ahead s.geometry pts with
  | mk result backend =>
      cases result with
      | error f =>
          refine .inr ⟨f, b, rfl, ?_, conB, queueB, carriesB⟩
          simp [carryOut, startRender, begun, answer]
      | ok frame =>
          have pendingB : ∃ e, b.entry? job.entry = some e ∧ e.isRendered = false := by
            obtain ⟨e, found, waits⟩ := pending
            obtain ⟨f, there, -, storage⟩ := back job.entry e found
            exact ⟨f, there, by rw [Entry.isRendered, storage]; exact waits⟩
          have predecessorB : ∀ p, job.predecessor = some p → b.isRendered p = true := by
            intro p same
            obtain ⟨member, rendered⟩ := predecessor p same
            exact (carriesB.rendered p (by rwa [queueB]) (by simp)).trans rendered
          obtain ⟨d, finished, conD, queueD, keeps, shown⟩ :=
            conB.finish pendingB predecessorB (s.follows job && frame.isUnchanged) frame
          have fresh : ∀ k, some job.entry = some k → b.isRendered k = false := by
            intro k same
            obtain ⟨e, found, waits⟩ := pendingB
            rw [← Option.some.inj same, Cache.isRendered_eq found, waits]
          have carriesD := conB.carries conD keeps fresh fun h member => by rwa [queueD] at member
          obtain ⟨f, there⟩ := conD.live_of_queued (h := job.entry) (by rwa [queueD, queueB])
          obtain ⟨rendered, frameD⟩ := shown f there
          refine .inl ⟨frame, d, rfl, ?_, conD, queueD.trans queueB, carriesB.trans carriesD, rendered, ?_⟩
          · have shares : ((job.predecessor.bind s.cache.pts?).any fun p => s.backend.lastWas p s.geometry) =
                s.follows job := rfl
            simp [carryOut, startRender, begun, answer, finishRender, shares, finished]
          · rw [frameD]
            refine Job.shown_congr (fun p same => ?_) _ _
            exact carriesB.frame p (by rw [queueB]; exact (predecessor p same).1) (by simp)

/-! ## Rounds -/

/-- A round of the worker. -/
inductive Round (s : Stream σ) : Stream σ → Prop
  | decode (running : s.worker = .running) (waits : s.pending ≠ []) : Round s s.decodePending
  | render {job : Job} {pts : Binary64} (running : s.worker = .running) (decoded : s.pending = [])
      (next : s.nextJob = some (job, pts)) : Round s (s.carryOut job pts)

theorem Round.running (round : Round s s') : s.worker = .running := by
  cases round with
  | decode running => exact running
  | render running => exact running

theorem round_of_workerStep (stepped : s.workerStep = some s') : Round s s' := by
  unfold workerStep at stepped
  split at stepped
  · exact absurd stepped nofun
  · next running =>
      have running := Decidable.not_not.1 running
      split at stepped
      · next waits =>
          obtain rfl := Option.some.inj stepped
          exact .decode running waits
      · next decoded =>
          obtain ⟨⟨job, pts⟩, next, became⟩ := Option.map_eq_some_iff.1 stepped
          rw [← became]
          exact .render running (Decidable.not_not.1 decoded) next

theorem settleWithin_of_rest (rest : s.workerStep = none) (rounds : Nat) : s.settleWithin rounds = s := by
  cases rounds with
  | zero => rfl
  | succ rounds => rw [settleWithin, rest]

theorem workerStep_of_not_running (stopped : s.worker ≠ .running) : s.workerStep = none := by
  rw [workerStep, if_pos stopped]

theorem settle_of_not_running (stopped : s.worker ≠ .running) : s.settle = s :=
  settleWithin_of_rest (workerStep_of_not_running stopped) _

theorem settleWithin_induction {P : Stream σ → Prop} (rounds : Nat) (start : P s)
    (round : ∀ s s', P s → Round s s' → P s') : P (s.settleWithin rounds) := by
  induction rounds generalizing s with
  | zero => exact start
  | succ rounds ih =>
      rw [settleWithin]
      cases stepped : s.workerStep with
      | none => exact start
      | some s' => exact ih (round s s' start (round_of_workerStep stepped))

/-- What every round keeps holds when the worker sleeps. -/
theorem settle_induction {P : Stream σ → Prop} (start : P s) (round : ∀ s s', P s → Round s s' → P s') :
    P s.settle :=
  settleWithin_induction _ start round

/-- What a job may come to: it is not begun, it is begun and the render of it is not published, or it is
finished. The worker fails unless it is finished. -/
theorem carryOut_ends (job : Job) (pts : Binary64) (s : Stream σ) :
    (∃ f, s.carryOut job pts = { s with worker := .crashed f }) ∨
    (∃ f b, s.cache.begin job = .ok b ∧ s.carryOut job pts =
      { s with cache := b, backend := (s.backend.render .ahead s.geometry pts).2, worker := .crashed f }) ∨
    ∃ b d share frame, s.cache.begin job = .ok b ∧ b.finish job share frame = .ok d ∧
      s.carryOut job pts = { s with cache := d, backend := (s.backend.render .ahead s.geometry pts).2 } := by
  unfold carryOut startRender
  cases begun : s.cache.begin job with
  | error f => exact .inl ⟨f, rfl⟩
  | ok b =>
      cases s.backend.render .ahead s.geometry pts with
      | mk answer backend =>
          cases answer with
          | error f => exact .inr (.inl ⟨f, b, rfl, rfl⟩)
          | ok frame =>
              simp only [finishRender]
              split
              · next d finished => exact .inr (.inr ⟨b, d, _, frame, rfl, finished, rfl⟩)
              · next f _ => exact .inr (.inl ⟨f, b, rfl, rfl⟩)

theorem carryOut_frame (job : Job) (pts : Binary64) (s : Stream σ) :
    s.carryOut job pts =
      { s with
        cache := (s.carryOut job pts).cache
        backend := (s.carryOut job pts).backend
        pending := (s.carryOut job pts).pending
        worker := (s.carryOut job pts).worker } := by
  obtain ⟨f, became⟩ | ⟨f, b, -, became⟩ | ⟨b, d, share, frame, -, -, became⟩ := carryOut_ends job pts s <;>
    rw [became]

/-- The worker reads nothing, and leaves alone what its caller holds. -/
theorem Round.frame (round : Round s s') :
    s' = { s with cache := s'.cache, backend := s'.backend, pending := s'.pending, worker := s'.worker } := by
  cases round with
  | decode => rfl
  | render => exact carryOut_frame _ _ s

/-- Nor do they change over its turn. -/
theorem settle_frame (s : Stream σ) :
    s.settle =
      { s with
        cache := s.settle.cache
        backend := s.settle.backend
        pending := s.settle.pending
        worker := s.settle.worker } := by
  refine settle_induction (P := fun t => t = { s with
    cache := t.cache, backend := t.backend, pending := t.pending, worker := t.worker }) rfl ?_
  intro t t' same round
  rw [round.frame, same]

/-! ## Rest -/

/-- Nothing is left to decode or to render. -/
structure Idle (s : Stream σ) : Prop where
  decoded : s.pending = []
  rendered : s.geometry.isVoid = false → ∀ h ∈ s.cache.queue, s.cache.isRendered h = true

omit [Backend σ] in
/-- Where entries leave the queue, and none comes, nothing is left to do again. -/
theorem Idle.carry {t : Stream σ} (idle : s.Idle) (carries : Cache.Carries none s.cache t.cache)
    (pending : t.pending = s.pending) (geometry : t.geometry = s.geometry) : t.Idle := by
  refine ⟨pending.trans idle.decoded, fun visible h member => ?_⟩
  exact (carries.rendered h member nofun).trans
    (idle.rendered (geometry ▸ visible) h (carries.queued h member))

/-- The rounds that are left: one to decode, and one for each entry that is not rendered. -/
def roundsLeft (s : Stream σ) : Nat :=
  (if s.pending = [] then 0 else 1) + s.cache.queue.countP fun h => !s.cache.isRendered h

omit [Backend σ] in
theorem roundsLeft_le (s : Stream σ) : s.roundsLeft ≤ s.cache.queue.length + 1 := by
  have waiting := List.countP_le_length (p := fun h => !s.cache.isRendered h) (l := s.cache.queue)
  unfold roundsLeft
  split <;> omega

omit [Backend σ] in
theorem idle_of_roundsLeft (none : s.roundsLeft = 0) : s.Idle := by
  unfold roundsLeft at none
  obtain ⟨decoded, rendered⟩ := Nat.add_eq_zero_iff.1 none
  refine ⟨by simpa using decoded, ?_⟩
  intro _ h member
  simpa using List.countP_eq_zero.1 rendered h member

theorem Round.consistent {lost : List Handle} (round : Round s s') (con : s.cache.Consistent lost) :
    ∃ lost', s'.cache.Consistent lost' := by
  cases round with
  | decode => exact ⟨lost, con⟩
  | render running decoded next =>
      obtain ⟨frame, d, -, became, conD, -⟩ | ⟨f, b, -, became, conB, -⟩ :=
        carryOut_cases con (nextJob_spec next).2.1 _
      · rw [became]
        exact ⟨lost, conD⟩
      · rw [became]
        exact ⟨_, conB⟩

/-- A round leaves less to do, unless it ends the worker. -/
theorem Round.roundsLeft_lt {lost : List Handle} (round : Round s s') (con : s.cache.Consistent lost)
    (running : s'.worker = .running) : s'.roundsLeft < s.roundsLeft := by
  cases round with
  | decode _ waits =>
      have decoded : s.decodePending.roundsLeft = s.cache.queue.countP fun h => !s.cache.isRendered h := by
        simp [roundsLeft, decodePending]
      rw [decoded, roundsLeft, if_neg waits]
      omega
  | @render job pts _ decoded next =>
      obtain ⟨-, first, -⟩ := nextJob_spec next
      obtain ⟨queued, ⟨e, found, waits⟩, -⟩ := Cache.firstPending_spec first
      obtain ⟨frame, d, -, became, -, queue, carries, done, -⟩ | ⟨f, b, -, became, -⟩ :=
        carryOut_cases con first pts
      · obtain ⟨front, back, parts⟩ := List.append_of_mem queued
        have kept : ∀ h ∈ s.cache.queue, (!d.isRendered h) = true → (!s.cache.isRendered h) = true := by
          intro h member pending
          by_cases same : job.entry = h
          · rw [← same, done] at pending
            exact absurd pending nofun
          · rwa [← carries.rendered h (by rwa [queue]) fun other => same (Option.some.inj other)]
        rw [parts] at kept
        have before := List.countP_mono_left (l := front) fun h member => kept h (List.mem_append_left _ member)
        have after := List.countP_mono_left (l := back) fun h member =>
          kept h (List.mem_append_right _ (List.mem_cons_of_mem _ member))
        rw [became]
        simp only [roundsLeft, decoded, queue, parts, List.countP_append, List.countP_cons, done,
          Cache.isRendered_eq found, waits]
        simp
        omega
      · rw [became] at running
        exact absurd running nofun

/-- Where there is no round, the worker was ended or nothing is left to do. -/
theorem idle_of_rest {lost : List Handle} (con : s.cache.Consistent lost) (running : s.worker = .running)
    (rest : s.workerStep = none) : s.Idle := by
  unfold workerStep at rest
  rw [if_neg (not_not_intro running)] at rest
  split at rest
  · exact absurd rest nofun
  · next decoded =>
      refine ⟨Decidable.not_not.1 decoded, ?_⟩
      intro visible h member
      have noJob := Option.map_eq_none_iff.1 rest
      rw [nextJob, visible, if_neg Bool.false_ne_true] at noJob
      have none : s.cache.firstPending = none := by
        cases first : s.cache.firstPending with
        | none => rfl
        | some job =>
            obtain ⟨queued, -⟩ := Cache.firstPending_spec first
            obtain ⟨e, found⟩ := con.live_of_queued queued
            rw [first] at noJob
            simp [Cache.pts?_eq found] at noJob
      exact Cache.rendered_of_firstPending none con member

theorem rest_of_idle (idle : s.Idle) : s.workerStep = none := by
  unfold workerStep
  rw [if_neg (not_not_intro idle.decoded)]
  split
  · rfl
  · cases next : s.nextJob with
    | none => rfl
    | some found =>
        obtain ⟨visible, first, -⟩ := nextJob_spec next
        obtain ⟨queued, ⟨e, found, pending⟩, -⟩ := Cache.firstPending_spec first
        have rendered := idle.rendered visible _ queued
        rw [Cache.isRendered_eq found, pending] at rendered
        exact absurd rendered nofun

theorem settle_of_idle (idle : s.Idle) : s.settle = s :=
  settleWithin_of_rest (rest_of_idle idle) _

theorem settleWithin_idle {lost : List Handle} (rounds : Nat) (con : s.cache.Consistent lost)
    (enough : s.roundsLeft ≤ rounds) (running : (s.settleWithin rounds).worker = .running) :
    (s.settleWithin rounds).Idle := by
  induction rounds generalizing s lost with
  | zero => exact idle_of_roundsLeft (Nat.le_zero.1 enough)
  | succ rounds ih =>
      rw [settleWithin] at running ⊢
      cases stepped : s.workerStep with
      | none =>
          rw [stepped] at running
          exact idle_of_rest con running stepped
      | some s' =>
          rw [stepped] at running
          have round := round_of_workerStep stepped
          obtain ⟨lost', con'⟩ := round.consistent con
          by_cases goesOn : s'.worker = .running
          · have fewer := round.roundsLeft_lt con goesOn
            exact ih con' (by omega) running
          · have running : (s'.settleWithin rounds).worker = .running := running
            rw [settleWithin_of_rest (workerStep_of_not_running goesOn)] at running
            exact absurd running goesOn

/-- A worker that sleeps has nothing left to do, if a fault did not end it. -/
theorem settle_idle {lost : List Handle} (con : s.cache.Consistent lost) (running : s.settle.worker = .running) :
    s.settle.Idle :=
  settleWithin_idle _ con s.roundsLeft_le running

end Stream
end Subtitles
