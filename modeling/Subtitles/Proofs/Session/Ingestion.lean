/-
# Proofs.Session.Ingestion: packets come in alike with and without a worker

`Intake` are the calls that bring packets in, and those that may come between. What such a call
answers, and which packets it brings in, hangs on the inlet of its stream alone (`Intake.outcome`). With the
worker at rest between calls, they are all decoded when the call is over, behind those decoded before it
(`receive_one`). So two sessions on one source decode the same packets in the same order, whether
they have a worker or not (`ingestion_alike`).
-/
import Mathlib.Data.List.Induction
import Subtitles.Proofs.Session.Enduring
import Subtitles.Proofs.Stream.Inlet
namespace Subtitles

set_option autoImplicit false

/-- A call that brings in packets, or comes between. A frame that is shown is given back at once. -/
inductive Intake
  | feed (p : Packet)
  | request (pts : Binary64)
  | prepare (pts : Binary64)
  | drain
  | reset
  | display (g : Geometry) (pts : Binary64)

namespace Intake

def actions : Intake → List Action
  | .feed p => [.offer p]
  | .request pts => [.request pts]
  | .prepare pts => [.prepare pts]
  | .drain => [.drain]
  | .reset => [.reset]
  | .display g pts => [.acquire g pts, .release]

theorem alone (calls : List Intake) (pts : Binary64) (g : Geometry) : .overtake pts g ∉ calls.flatMap actions := by
  intro member
  obtain ⟨c, -, inside⟩ := List.mem_flatMap.1 member
  cases c <;> simp [actions] at inside

/-- The packets that a call brings in, given what the stream knows of its source before and after: a
packet that is fed, unless the source was drained, and those that have left the source, in order. -/
def Brings (c : Intake) (before after : Inlet) (ps : List Packet) : Prop :=
  match c with
  | .feed p =>
    after.source = before.source ∧ after.drained = before.drained ∧ ps = if before.drained then [] else [p]
  | .prepare _ => before.source.packets = ps ++ after.source.packets ∧ after.drained = before.drained
  | .drain =>
    before.source.packets = ps ++ after.source.packets ∧
      after.drained = (before.drained || !before.source.isOpen)
  | .request _ | .reset | .display .. =>
    after.source = before.source ∧ after.drained = before.drained ∧ ps = []

/-- What a call comes to. There is no answer here where it is a frame. -/
structure Outcome where
  answer : Option Answer
  taken : List Packet
  inlet : Inlet

def outcome (i : Inlet) : Intake → Outcome
  | .feed p => ⟨some .nothing, if i.drained then [] else [p], i⟩
  | .request _ => ⟨some .nothing, [], i⟩
  | .prepare pts => ⟨some (.flag (i.read pts).1), (i.read pts).2.1, (i.read pts).2.2⟩
  | .drain =>
    if i.source.isOpen then ⟨some (.refused .wouldBlock), [], i⟩
    else ⟨some (.flag true), i.source.untilEnd, ⟨i.source.pastEnd, i.lastRead, true⟩⟩
  | .reset => ⟨some .nothing, [], { i with lastRead := none }⟩
  | .display .. => ⟨none, [], i⟩

theorem brings_outcome (c : Intake) (i : Inlet) : c.Brings i (c.outcome i).inlet (c.outcome i).taken := by
  cases c with
  | prepare pts =>
      simp only [Brings, outcome, Inlet.read]
      split
      · exact ⟨rfl, rfl⟩
      · exact ⟨packetsOf_reading pts _ _, rfl⟩
  | drain =>
      simp only [Brings, outcome]
      split
      · next isOpen => exact ⟨rfl, by simp [isOpen]⟩
      · next closed => exact ⟨i.source.packets_eq_append, by simp [closed]⟩
  | _ => exact ⟨rfl, rfl, rfl⟩

/-- Only a frame is an answer that depends on more. -/
theorem answer_outcome (c : Intake) (i : Inlet) (other : ∀ g pts, c ≠ .display g pts) :
    ∃ answer, (c.outcome i).answer = some answer := by
  cases c with
  | drain =>
      rw [outcome]
      split <;> exact ⟨_, rfl⟩
  | display g pts => exact absurd rfl (other g pts)
  | _ => exact ⟨_, rfl⟩

end Intake

variable {σ : Type} [Backend σ]

/-! ## Frames out and back -/

namespace Stream

variable {s t : Stream σ}

theorem takes_acquire (nothing : s.pending = []) (g : Geometry) (pts : Binary64) :
    Takes s (s.acquire g pts).2 [] s.inlet := by
  obtain ⟨geometry, cache, current, reserved, backend, acquired, rfl | rfl⟩ := acquire_frame g pts s
  · rw [acquired]
    exact .silent rfl nothing rfl rfl rfl
  · obtain ⟨new, log, renders⟩ := s.backend.calls_render .demand g pts
    rw [acquired]
    refine .quiet new rfl nothing log (fun c member => ?_) rfl rfl
    obtain ⟨frame, rfl⟩ := renders c member
    exact ⟨rfl, rfl⟩

omit [Backend σ] in
theorem takes_release (nothing : s.pending = []) {f : HeldFrame} (released : s.release f = .ok t) :
    Takes s t [] s.inlet := by
  obtain ⟨h, b, -, -, -, rfl⟩ | ⟨-, -, rfl⟩ := release_cases released
  · exact .silent rfl nothing rfl rfl rfl
  · exact .silent rfl nothing rfl rfl rfl

/-- Everything is decoded, and the cache is in order. -/
structure Rested (fresh : σ) (s : Stream σ) : Prop where
  decoded : s.pending = []
  room : s.pushesBack = false
  sound : ∃ n, Underway.Sound fresh n ⟨s, none⟩

variable {fresh : σ} {ps : List Packet} {i : Inlet}

/-- The worker's turn, unless it ends the worker. -/
theorem Rested.settle (rested : s.Rested fresh) (takes : Takes s t ps i)
    (sound : ∃ n, Underway.Sound fresh n ⟨t, none⟩) (survives : ∀ f, t.settle.worker ≠ .crashed f) :
    t.settle.Rested fresh ∧ Brought s t.settle ps i := by
  have brought := takes.settle (awake_of_survives takes.waits survives)
  obtain ⟨n, sound⟩ := sound
  exact ⟨⟨brought.pending, brought.pushesBack.trans rested.room, n, sound.settle survives⟩, brought⟩

end Stream

/-! ## One call -/

namespace Session

variable {fresh : σ} {s : Session σ}

/-- Nothing is out, everything is decoded, and the cache is in order. -/
structure Rested (fresh : σ) (s : Session σ) : Prop where
  free : s.held = none
  stream : s.stream.Rested fresh

/-- The calls in order, with the answers to their actions. -/
def receive (s : Session σ) (calls : List Intake) : List Answer × Session σ :=
  s.run (calls.flatMap Intake.actions)

theorem receive_singleton (s : Session σ) (c : Intake) : s.receive [c] = s.run c.actions := by
  rw [receive, List.flatMap_singleton]

theorem receive_append (s : Session σ) (cs ds : List Intake) :
    s.receive (cs ++ ds) = ((s.receive cs).1 ++ ((s.receive cs).2.receive ds).1, ((s.receive cs).2.receive ds).2) := by
  rw [receive, List.flatMap_append, run_append]
  rfl

theorem run_singleton (s : Session σ) (a : Action) : s.run [a] = ([(s.step a).1], (s.step a).2) := rfl

/-- What becomes of a session over a call. -/
structure Received (fresh : σ) (c : Intake) (s : Session σ) (result : List Answer × Session σ) : Prop where
  rested : result.2.Rested fresh
  brought : Stream.Brought s.stream result.2.stream (c.outcome s.stream.inlet).taken (c.outcome s.stream.inlet).inlet
  answers : ∀ answer, (c.outcome s.stream.inlet).answer = some answer → result.1 = [answer]

/-- An action, and the worker's turn after it. -/
theorem step_rested (rested : s.stream.Rested fresh) {a : Action} (alone : ∀ pts g, a ≠ .overtake pts g)
    (goesOn : (s.holdsBackend && a.needsBackend) = false) {ps : List Packet} {i : Inlet}
    (takes : Stream.Takes s.stream (s.turn a) ps i) (survives : ∀ f, (s.step a).2.stream.worker ≠ .crashed f) :
    (s.step a).2.stream.Rested fresh ∧ Stream.Brought s.stream (s.step a).2.stream ps i := by
  rw [step_eq goesOn] at survives ⊢
  obtain ⟨n, sound⟩ := rested.sound
  exact rested.settle takes ⟨n, sound.turn alone⟩ survives

/-- Such an action leaves the slot of the frame that is out as it is. -/
def leavesHeld : Action → Bool
  | .acquire .. | .release | .overtake .. => false
  | _ => true

/-- A call of one action that takes no frame out. -/
theorem Rested.receive_single (rested : s.Rested fresh) {c : Intake} {a : Action} {answer : Answer}
    (single : c.actions = [a]) (leaves : leavesHeld a = true) (answered : (c.outcome s.stream.inlet).answer = some answer)
    (performed : (s.perform a).1 = answer)
    (takes : Stream.Takes s.stream (s.turn a) (c.outcome s.stream.inlet).taken (c.outcome s.stream.inlet).inlet)
    (survives : ∀ f, (s.receive [c]).2.stream.worker ≠ .crashed f) : Received fresh c s (s.receive [c]) := by
  rw [receive_singleton, single, run_singleton] at survives ⊢
  have goesOn : (s.holdsBackend && a.needsBackend) = false := by simp [holdsBackend, rested.free]
  have alone : ∀ pts g, a ≠ .overtake pts g := by
    rintro pts g rfl
    cases leaves
  have keeps : ∀ g pts, a ≠ .acquire g pts := by
    rintro g pts rfl
    cases leaves
  have stays : a ≠ .release := by
    rintro rfl
    cases leaves
  obtain ⟨stream, brought⟩ := step_rested rested.stream alone goesOn takes survives
  refine ⟨⟨?_, stream⟩, brought, ?_⟩
  · rw [step_eq goesOn]
    exact (s.held_perform alone keeps stays).trans rested.free
  · intro answer' same
    obtain rfl := Option.some.inj (answered.symm.trans same)
    rw [step_eq goesOn, performed]

/-- A frame is taken out and given back, or refused. -/
theorem Rested.receive_display (rested : s.Rested fresh) (g : Geometry) (pts : Binary64)
    (survives : ∀ f, (s.receive [.display g pts]).2.stream.worker ≠ .crashed f) :
    Received fresh (.display g pts) s (s.receive [.display g pts]) := by
  rw [receive_singleton] at survives ⊢
  show Received fresh (.display g pts) s (_, ((s.step (.acquire g pts)).2.step .release).2)
  replace survives : ∀ f, ((s.step (.acquire g pts)).2.step .release).2.stream.worker ≠ .crashed f := survives
  have alone : ∀ pts g, Action.overtake pts g ∉ [Action.release] := by simp
  have between := not_crashed_of_run (s := (s.step (.acquire g pts)).2) alone survives
  obtain ⟨stream, brought⟩ := step_rested (a := .acquire g pts) rested.stream (by simp)
    (by simp [Action.needsBackend]) (Stream.takes_acquire rested.stream.decoded g pts) between
  generalize (s.step (.acquire g pts)).2 = t at survives stream brought
  have goesOn : (t.holdsBackend && Action.release.needsBackend) = false := by simp [Action.needsBackend]
  have takes : Stream.Takes t.stream (t.turn .release) [] t.stream.inlet := by
    obtain kept | ⟨f, -, released⟩ := t.turn_release_cases
    · rw [kept]
      exact .silent rfl stream.decoded rfl rfl rfl
    · exact Stream.takes_release stream.decoded released
  obtain ⟨stream', brought'⟩ := step_rested (a := .release) stream (by simp) goesOn takes survives
  refine ⟨⟨?_, stream'⟩, brought.trans (brought.inlet ▸ brought'), fun _ given => by cases given⟩
  rw [step_eq goesOn]
  show (t.release).2.held = none
  unfold release
  split
  · next nothing => exact nothing
  · unfold after
    split <;> rfl

/-- What a call comes to, between calls. -/
theorem Rested.receive_one (rested : s.Rested fresh) (c : Intake)
    (survives : ∀ f, (s.receive [c]).2.stream.worker ≠ .crashed f) : Received fresh c s (s.receive [c]) := by
  have nothing := rested.stream.decoded
  have room := rested.stream.room
  cases c with
  | feed p => exact rested.receive_single rfl rfl rfl rfl (Stream.takes_offer nothing p) survives
  | request pts =>
      have same : Stream.Takes s.stream s.stream [] s.stream.inlet :=
        .silent rfl nothing rfl rfl rfl
      exact rested.receive_single rfl rfl rfl rfl (same.request pts) survives
  | prepare pts =>
      obtain ⟨ready, takes⟩ := Stream.takes_prepare nothing room pts
      exact rested.receive_single rfl rfl rfl (congrArg Answer.flag ready) takes survives
  | drain =>
      cases isOpen : s.stream.source.isOpen with
      | true =>
          have refused : Intake.drain.outcome s.stream.inlet = ⟨some (.refused .wouldBlock), [], s.stream.inlet⟩ :=
            if_pos isOpen
          have still : s.turn .drain = s.stream := if_pos isOpen
          have answered : (Intake.drain.outcome s.stream.inlet).answer = some (.refused .wouldBlock) := by rw [refused]
          refine rested.receive_single (a := .drain) rfl rfl answered ?_ ?_ survives
          · simp only [perform, isOpen, if_true]
          · rw [refused, still]
            exact .silent rfl nothing rfl rfl rfl
      | false =>
          obtain ⟨done, takes⟩ := Stream.takes_drain nothing room isOpen
          have drained : Intake.drain.outcome s.stream.inlet =
              ⟨some (.flag true), s.stream.source.untilEnd, ⟨s.stream.source.pastEnd, s.stream.lastRead, true⟩⟩ :=
            if_neg (by simp [Stream.inlet, isOpen])
          have turned : s.turn .drain = s.stream.drain.2 := by simp only [turn, isOpen, if_false, Bool.false_eq_true]
          have answered : (Intake.drain.outcome s.stream.inlet).answer = some (.flag true) := by rw [drained]
          refine rested.receive_single (a := .drain) rfl rfl answered ?_ ?_ survives
          · simp only [perform, isOpen, if_false, Bool.false_eq_true]
            generalize s.stream.drain = result at done
            obtain ⟨answer, stream⟩ := result
            obtain rfl : answer = some true := done
            rfl
          · rw [drained, turned]
            exact takes
  | reset =>
      obtain ⟨n, sound⟩ := rested.stream.sound
      obtain ⟨b, flushed, -⟩ := sound.consistent.flush
      have reset : s.stream.reset = .ok { s.stream with
          backend := s.stream.backend.reset, lastRead := none, cache := b, pending := [] } := by
        rw [Stream.reset, show s.stream.cache.flush = .ok b from flushed]
        rfl
      have turned : s.turn .reset = _ := congrArg (fun r : Except Fault (Stream σ) => r.toOption.getD s.stream) reset
      refine rested.receive_single (a := .reset) rfl rfl rfl ?_ ?_ survives
      · simp only [perform, reset, after]
      · rw [turned]
        exact Stream.takes_reset reset
  | display g pts => exact rested.receive_display g pts survives

/-! ## Two sessions -/

/-- The session decodes what the call brings in before its worker renders anything, and nothing is left
to decode. -/
structure Ingests (s : Session σ) (c : Intake) (ps : List Packet) : Prop where
  brings : c.Brings s.stream.inlet (s.receive [c]).2.stream.inlet ps
  decodes : decoded (s.receive [c]).2.stream.backend.calls = decoded s.stream.backend.calls ++ ps
  caughtUp : (s.receive [c]).2.stream.pending = []
  renders : RendersDecoded s.stream.backend.calls (s.receive [c]).2.stream.backend.calls

theorem Received.ingests {c : Intake} (received : Received fresh c s (s.receive [c])) :
    s.Ingests c (c.outcome s.stream.inlet).taken where
  brings := received.brought.inlet ▸ c.brings_outcome s.stream.inlet
  decodes := received.brought.decoded
  caughtUp := received.brought.pending
  renders := received.brought.rendersDecoded

theorem not_crashed_of_append {earlier later : List Intake}
    (survives : ∀ f, (s.receive (earlier ++ later)).2.stream.worker ≠ .crashed f) :
    ∀ f, (s.receive earlier).2.stream.worker ≠ .crashed f := by
  rw [receive_append] at survives
  exact not_crashed_of_run (Intake.alone later) survives

/-- Between calls both have decoded the same packets, and know the same of their source. -/
structure Alongside (fresh : σ) (s t : Session σ) : Prop where
  left : s.Rested fresh
  right : t.Rested fresh
  inlet : t.stream.inlet = s.stream.inlet
  decoded : decoded t.stream.backend.calls = decoded s.stream.backend.calls

namespace Alongside

variable {t : Session σ}

theorem receive_one (alongside : Alongside fresh s t) (c : Intake)
    (survivesLeft : ∀ f, (s.receive [c]).2.stream.worker ≠ .crashed f)
    (survivesRight : ∀ f, (t.receive [c]).2.stream.worker ≠ .crashed f) :
    Alongside fresh (s.receive [c]).2 (t.receive [c]).2 ∧
      (∃ ps, s.Ingests c ps ∧ t.Ingests c ps) ∧
      ((∀ g pts, c ≠ .display g pts) → (t.receive [c]).1 = (s.receive [c]).1) := by
  have left := alongside.left.receive_one c survivesLeft
  have right := alongside.right.receive_one c survivesRight
  have ingests := right.ingests
  have answers := right.answers
  have brought := right.brought
  rw [alongside.inlet] at ingests answers brought
  refine ⟨⟨left.rested, right.rested, ?_, ?_⟩, ⟨_, left.ingests, ingests⟩, fun other => ?_⟩
  · rw [brought.inlet, left.brought.inlet]
  · rw [brought.decoded, left.brought.decoded, alongside.decoded]
  · obtain ⟨answer, answered⟩ := c.answer_outcome s.stream.inlet other
    rw [left.answers answer answered, answers answer answered]

theorem receive (alongside : Alongside fresh s t) (calls : List Intake)
    (survivesLeft : ∀ f, (s.receive calls).2.stream.worker ≠ .crashed f)
    (survivesRight : ∀ f, (t.receive calls).2.stream.worker ≠ .crashed f) :
    Alongside fresh (s.receive calls).2 (t.receive calls).2 := by
  induction calls using List.reverseRecOn with
  | nil => exact alongside
  | append_singleton calls c ih =>
      have before := ih (not_crashed_of_append survivesLeft) (not_crashed_of_append survivesRight)
      rw [receive_append] at survivesLeft survivesRight ⊢
      rw [receive_append]
      exact (before.receive_one c survivesLeft survivesRight).1

/-- With a backend that takes every packet, both have everything decoded once opened. -/
theorem opened (push : Backend.accepts fresh = none) (codec : Codec) (source : Source) (options options' : Options) :
    Alongside fresh (.opened codec source options fresh) (.opened codec source options' fresh) := by
  have rested : ∀ options, (Session.opened codec source options fresh).Rested fresh := fun options =>
    ⟨rfl, rfl, by simp [Session.opened, Stream.ofBackend, push], _, Underway.Reached.sound .start⟩
  exact ⟨rested options, rested options', rfl, rfl⟩

end Alongside
end Session

/-- A session with a worker, whose renders give frames, takes in, decodes and answers like one without. Each
render ahead comes when all packets there are so far are decoded. -/
theorem ingestion_alike {fresh : σ} (push : Backend.accepts fresh = none) {codec : Codec} {source : Source}
    {visible : Bool} {count : UInt64} {calls : List Intake}
    (workerRenders :
      (Session.opened codec source { renderAhead := count, visible } fresh).WorkerRenders (calls.flatMap Intake.actions)) :
    ∀ earlier c later, calls = earlier ++ c :: later →
      ∃ plain ahead : Session σ,
        plain = ((Session.opened codec source { renderAhead := 0, visible } fresh).receive earlier).2 ∧
        ahead = ((Session.opened codec source { renderAhead := count, visible } fresh).receive earlier).2 ∧
        decoded ahead.stream.backend.calls = decoded plain.stream.backend.calls ∧
        (∃ ps, plain.Ingests c ps ∧ ahead.Ingests c ps) ∧
        ((∀ g pts, c ≠ .display g pts) → (ahead.receive [c]).1 = (plain.receive [c]).1) := by
  rintro earlier c later rfl
  have survives : ∀ f, ((Session.opened codec source { renderAhead := count, visible } fresh).receive
      (earlier ++ c :: later)).2.stream.worker ≠ .crashed f :=
    (Session.endures_opened_iff codec source _ fresh (Intake.alone _)).2 workerRenders
  rw [List.append_cons] at survives
  have absent : (Session.opened codec source { renderAhead := 0, visible } fresh).stream.worker = .absent := rfl
  have alone : ∀ calls f,
      ((Session.opened codec source { renderAhead := 0, visible } fresh).receive calls).2.stream.worker ≠ .crashed f := by
    intro calls f
    rw [Session.receive, Session.worker_run (by rw [absent]; exact nofun) (Intake.alone calls), absent]
    exact nofun
  have survived := Session.not_crashed_of_append survives
  have before := (Session.Alongside.opened push codec source { renderAhead := 0, visible }
    { renderAhead := count, visible }).receive earlier (alone earlier) (Session.not_crashed_of_append survived)
  have aloneThen := alone (earlier ++ [c])
  rw [Session.receive_append] at aloneThen survived
  obtain ⟨-, ingests, answers⟩ := before.receive_one c aloneThen survived
  exact ⟨_, _, rfl, rfl, before.decoded, ingests, answers⟩

/-- A read stalls, one fails, and a packet comes behind the end. -/
def tallySource : Source :=
  ⟨[.stall, .packet ⟨some .zero, none, #[1]⟩, .failure, .packet ⟨some .one, none, #[2]⟩, .ending,
    .packet ⟨none, none, #[3]⟩], 0⟩

def tallyIngesting : Session TallyBackend := .opened ⟨"mock", #[]⟩ tallySource { renderAhead := 2 } {}

/-- The second read is followed by a render ahead, and the last packet comes too late. -/
def tallyIntake : List Intake :=
  [.display ⟨8, 4, {}, .one⟩ .zero, .prepare .zero, .prepare .zero, .display ⟨8, 4, {}, .one⟩ .zero, .request .one,
    .reset, .prepare .one, .drain, .feed ⟨none, none, #[4]⟩]

theorem ingestion_alike_tally :
    Backend.accepts ({} : TallyBackend) = none ∧
      tallyIngesting.WorkerRenders (tallyIntake.flatMap Intake.actions) ∧
      ∃ plain ahead : Session TallyBackend, ∃ ps, plain.Ingests .drain ps ∧ ahead.Ingests .drain ps ∧
        (ahead.receive [.drain]).1 = (plain.receive [.drain]).1 ∧ (frames ahead.stream.backend.calls).length = 4 := by
  have push : Backend.accepts ({} : TallyBackend) = none := rfl
  have workerRenders := TallyBackend.workerRenders tallyIngesting (tallyIntake.flatMap Intake.actions)
  obtain ⟨plain, ahead, -, here, -, ⟨ps, left, right⟩, same⟩ :=
    ingestion_alike push workerRenders (tallyIntake.take 7) .drain [.feed ⟨none, none, #[4]⟩] rfl
  refine ⟨push, workerRenders, plain, ahead, ps, left, right, same nofun, ?_⟩
  rw [here]
  decide +kernel

end Subtitles
