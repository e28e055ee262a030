/-
# Proofs.Stream.Inlet: packets on their way to the backend

What a stream takes from its source depends on what it knows of the source, its `Inlet`. Where the
packets go next does not: an operation that takes some in leaves them behind all earlier ones, decoded
or pending (`Takes`), and the worker's turn decodes what is pending before it renders anything
(`caughtUp_settle`). After both, the packets are decoded (`Takes.settle`).
-/
import Subtitles.Proofs.Calls
import Subtitles.Proofs.Stream.Reading
import Subtitles.Proofs.Stream.Rounds
import Subtitles.Stream.Checkout
namespace Subtitles

set_option autoImplicit false

/-- The worker rendered, since a call of the log, only with all packets decoded that now are. -/
def RendersDecoded (since log : List Call) : Prop :=
  ∀ newer older pts g frame, log = newer ++ .render .ahead pts g frame :: older → since <:+ older →
    decoded older = decoded log

/-- It is so where all that came since is decoded before any render of the worker. -/
theorem rendersDecoded_of_append {renders before since : List Call} (quiet : ∀ c ∈ renders, c.packet? = none)
    (silent : ∀ c ∈ before, c.isAhead = false) : RendersDecoded since (renders ++ (before ++ since)) := by
  rintro newer _ pts g frame split ⟨older, rfl⟩
  have split : renders ++ before = newer ++ .render .ahead pts g frame :: older := by
    refine (List.append_left_inj since).1 ?_
    rw [List.append_assoc, split, List.append_assoc]
    rfl
  have apart : .render .ahead pts g frame ∉ before := fun member => absurd (silent _ member) nofun
  have nothing : ∀ calls, calls ⊆ renders → decoded calls = [] := fun calls among =>
    decoded_eq_nil_iff.2 fun c member => quiet c (among member)
  rcases List.append_eq_append_iff.1 split with ⟨rest, -, behind⟩ | ⟨front, ahead, behind⟩
  · exact absurd (behind ▸ List.mem_append_right _ List.mem_cons_self) apart
  · cases front with
    | nil =>
        rw [List.nil_append] at behind
        exact absurd (behind ▸ List.mem_cons_self) apart
    | cons c front =>
        rw [List.cons_append] at behind
        obtain ⟨rfl, rfl⟩ := List.cons.inj behind
        rw [List.append_assoc, decoded_append, decoded_append renders, nothing renders (List.Subset.refl _),
          nothing front fun d member => ahead ▸ List.mem_append_right _ (List.mem_cons_of_mem _ member)]

/-- What a stream knows of its source. -/
structure Inlet where
  source : Source
  lastRead : Option Binary64 := none
  /-- The source was drained, and nothing more is taken in. -/
  drained : Bool := false

/-- What a read answers and takes, and what the stream knows then. -/
def Inlet.read (pts : Binary64) (i : Inlet) : Bool × List Packet × Inlet :=
  if i.drained || i.lastRead.any fun last => decide (pts < last) then (true, [], i)
  else
    let r := reading pts i.source.isOpen i.source.arrivals
    (r.ready, r.taken, { i with
      source := { i.source with arrivals := r.left }
      lastRead := (r.taken.getLast?.map (·.pts)).getD i.lastRead })

namespace Stream

variable {σ : Type} [Backend σ] {s t : Stream σ} {ps : List Packet} {i : Inlet}

def inlet (s : Stream σ) : Inlet := ⟨s.source, s.lastRead, s.drained⟩

/-- From `s` to `t` some packets were taken in, and are decoded or wait for the worker. -/
structure Takes (s t : Stream σ) (ps : List Packet) (i : Inlet) : Prop where
  inlet : t.inlet = i
  arrived : decoded t.backend.calls ++ t.pending = decoded s.backend.calls ++ ps
  log : ∃ new, t.backend.calls = new ++ s.backend.calls ∧ ∀ c ∈ new, c.isAhead = false
  waits : t.pending ≠ [] → t.threaded = true
  pushesBack : t.pushesBack = s.pushesBack
  worker : t.worker = s.worker

omit [Backend σ] in
/-- Nothing was taken in, nor decoded. -/
theorem Takes.quiet (new : List Call) (inlet : t.inlet = i) (pending : t.pending = [])
    (log : t.backend.calls = new ++ s.backend.calls) (other : ∀ c ∈ new, c.packet? = none ∧ c.isAhead = false)
    (pushesBack : t.pushesBack = s.pushesBack) (worker : t.worker = s.worker) : Takes s t [] i := by
  refine ⟨inlet, ?_, ⟨new, log, fun c member => (other c member).2⟩, fun waits => absurd pending waits, pushesBack,
    worker⟩
  rw [log, pending, decoded_append, decoded_eq_nil_iff.2 fun c member => (other c member).1, List.append_nil]

omit [Backend σ] in
/-- The backend was not called at all. -/
theorem Takes.silent (inlet : t.inlet = i) (pending : t.pending = []) (log : t.backend.calls = s.backend.calls)
    (pushesBack : t.pushesBack = s.pushesBack) (worker : t.worker = s.worker) : Takes s t [] i :=
  .quiet [] inlet pending log (List.forall_mem_nil _) pushesBack worker

omit [Backend σ] in
/-- What the stream knew of its source before does not matter. -/
theorem Takes.of_source {source : Source} {lastRead : Option Binary64} {drained : Bool}
    (takes : Takes { s with source, lastRead, drained } t ps i) : Takes s t ps i :=
  ⟨takes.inlet, takes.arrived, takes.log, takes.waits, takes.pushesBack, takes.worker⟩

theorem takes_enter (nothing : s.pending = []) (ps : List Packet) : Takes s (s.enter ps) ps s.inlet := by
  unfold enter
  split
  · next threaded =>
      refine ⟨rfl, ?_, ⟨[], rfl, List.forall_mem_nil _⟩, fun _ => threaded, rfl, rfl⟩
      show decoded s.backend.calls ++ (s.pending ++ ps) = decoded s.backend.calls ++ ps
      rw [nothing, List.nil_append]
  · have log : (ps.foldl (fun b p => b.decode p) s.backend).calls = (ps.map Call.decode).reverse ++ s.backend.calls := by
      rw [LoggedBackend.foldl_decode]
    refine ⟨rfl, ?_, ⟨(ps.map Call.decode).reverse, log, ?_⟩, fun waits => absurd nothing waits, rfl, rfl⟩
    · show decoded (ps.foldl (fun b p => b.decode p) s.backend).calls ++ s.pending = _
      rw [nothing, List.append_nil, log, decoded_decodes]
    · simp [Call.isAhead]

/-! ## What callers do -/

theorem takes_offer (nothing : s.pending = []) (p : Packet) :
    Takes s (s.offer p) (if s.drained then [] else [p]) s.inlet := by
  unfold offer
  split
  · exact .silent rfl nothing rfl rfl rfl
  · rw [← enter_nil (s.deliver p), ← enter_cons]
    exact takes_enter nothing [p]

omit [Backend σ] in
/-- Only the cache is another. -/
theorem Takes.request (takes : Takes s t ps i) (pts : Binary64) : Takes s (t.request pts) ps i := by
  unfold Stream.request
  split
  · exact ⟨takes.inlet, takes.arrived, takes.log, takes.waits, takes.pushesBack, takes.worker⟩
  · exact takes

theorem takes_prepare (nothing : s.pending = []) (room : s.pushesBack = false) (pts : Binary64) :
    (s.prepare pts).1 = (s.inlet.read pts).1 ∧
      Takes s (s.prepare pts).2 (s.inlet.read pts).2.1 (s.inlet.read pts).2.2 := by
  have read : (s.readUntil pts).1 = (s.inlet.read pts).1 ∧
      Takes s (s.readUntil pts).2 (s.inlet.read pts).2.1 (s.inlet.read pts).2.2 := by
    cases known : s.drained || s.sawBeyond pts with
    | true =>
        have done : s.readUntil pts = (true, s) := by rw [readUntil, if_pos (by rw [known]; rfl)]
        have nothingRead : s.inlet.read pts = (true, [], s.inlet) := if_pos known
        rw [done, nothingRead]
        exact ⟨rfl, .silent rfl nothing rfl rfl rfl⟩
    | false =>
        obtain ⟨undrained, unseen⟩ := (Bool.or_eq_false_iff ..).1 known
        have goesOn : s.inlet.read pts = _ := if_neg (Bool.eq_false_iff.1 known)
        rw [readUntil_eq pts undrained unseen room, goesOn]
        refine ⟨rfl, Takes.of_source (takes_enter ?_ _)⟩
        exact nothing
  refine ⟨read.1, ?_⟩
  show Takes s (if (s.readUntil pts).1 then _ else _) _ _
  split
  · exact read.2.request pts
  · exact read.2

theorem takes_drain (nothing : s.pending = []) (room : s.pushesBack = false) (closed : s.source.isOpen = false) :
    s.drain.1 = some true ∧ Takes s s.drain.2 s.source.untilEnd ⟨s.source.pastEnd, s.lastRead, true⟩ := by
  rw [drain_eq room closed]
  have entered := takes_enter (s := { s with source := s.source.pastEnd }) nothing s.source.untilEnd
  exact ⟨rfl, congrArg (fun i : Inlet => { i with drained := true }) entered.inlet, entered.arrived, entered.log,
    entered.waits, entered.pushesBack, entered.worker⟩

theorem takes_reset (reset : s.reset = .ok t) :
    Takes s t [] { s.inlet with lastRead := none } := by
  obtain ⟨cache, -, rfl⟩ := reset_cases reset
  exact .quiet [.reset] rfl rfl rfl (List.forall_mem_singleton.2 ⟨rfl, rfl⟩) rfl rfl

/-! ## What the worker does -/

/-- From `s` to `t` the worker decoded what was pending and then may have rendered. -/
structure CaughtUp (s t : Stream σ) : Prop where
  inlet : t.inlet = s.inlet
  pending : t.pending = []
  pushesBack : t.pushesBack = s.pushesBack
  log : ∃ renders, t.backend.calls = renders ++ ((s.pending.map Call.decode).reverse ++ s.backend.calls) ∧
    ∀ c ∈ renders, c.isAhead = true

/-- A job takes nothing in, and has one render at most. -/
theorem carryOut_backend (job : Job) (pts : Binary64) (s : Stream σ) :
    (s.carryOut job pts).pending = s.pending ∧
      ((s.carryOut job pts).backend = s.backend ∨
        (s.carryOut job pts).backend = (s.backend.render .ahead s.geometry pts).2) := by
  obtain ⟨f, became⟩ | ⟨f, b, -, became⟩ | ⟨b, d, share, frame, -, -, became⟩ := carryOut_ends job pts s
  · rw [became]
    exact ⟨rfl, .inl rfl⟩
  · rw [became]
    exact ⟨rfl, .inr rfl⟩
  · rw [became]
    exact ⟨rfl, .inr rfl⟩

theorem carryOut_log (job : Job) (pts : Binary64) (s : Stream σ) :
    ∃ new, (s.carryOut job pts).backend.calls = new ++ s.backend.calls ∧ ∀ c ∈ new, c.isAhead = true := by
  obtain ⟨-, same | became⟩ := carryOut_backend job pts s
  · exact ⟨[], by rw [same]; rfl, List.forall_mem_nil _⟩
  · obtain ⟨new, log, renders⟩ := s.backend.calls_render .ahead s.geometry pts
    refine ⟨new, by rw [became, log], fun c member => ?_⟩
    obtain ⟨frame, rfl⟩ := renders c member
    rfl

omit [Backend σ] in
theorem caughtUp_refl (nothing : s.pending = []) : CaughtUp s s :=
  ⟨rfl, nothing, rfl, [], by rw [nothing]; rfl, List.forall_mem_nil _⟩

/-- With nothing pending, a round is a job. -/
theorem CaughtUp.round {r : Stream σ} (caughtUp : CaughtUp s r) (round : Round r t) : CaughtUp s t := by
  obtain ⟨inlet, pending, pushesBack, renders, log, ahead⟩ := caughtUp
  have frame := round.frame
  cases round with
  | decode _ waits => exact absurd pending waits
  | @render job pts _ _ _ =>
      obtain ⟨kept, -⟩ := carryOut_backend job pts r
      obtain ⟨new, grown, aheadNew⟩ := carryOut_log job pts r
      refine ⟨?_, kept.trans pending, ?_, new ++ renders, ?_, List.forall_mem_append.2 ⟨aheadNew, ahead⟩⟩
      · rw [frame]
        exact inlet
      · rw [frame]
        exact pushesBack
      · rw [grown, log, List.append_assoc]

/-- The worker catches up in its turn, unless it is not there to do so. -/
theorem caughtUp_settle (awake : s.pending = [] ∨ s.worker = .running) : CaughtUp s s.settle := by
  by_cases waits : s.pending = []
  · exact settle_induction (caughtUp_refl waits) fun _ _ caughtUp round => caughtUp.round round
  · have running := awake.resolve_left waits
    have first : s.workerStep = some s.decodePending := by
      rw [workerStep, if_neg (not_not_intro running), if_pos waits]
    have turn : s.settle = s.decodePending.settleWithin s.cache.queue.length := by
      rw [settle, settleWithin, first]
    rw [turn]
    refine settleWithin_induction _ ⟨rfl, rfl, rfl, [], ?_, List.forall_mem_nil _⟩
      fun _ _ caughtUp round => caughtUp.round round
    show (s.pending.foldl (fun b p => b.decode p) s.backend).calls = _
    rw [LoggedBackend.foldl_decode]
    rfl

/-- A worker that is there after its turn was there to catch up. -/
theorem awake_of_survives (waits : s.pending ≠ [] → s.threaded = true)
    (survives : ∀ f, s.settle.worker ≠ .crashed f) : s.pending = [] ∨ s.worker = .running := by
  refine (Classical.em (s.pending = [])).imp_right fun left => ?_
  have threaded := waits left
  cases worker : s.worker with
  | running => rfl
  | absent => simp [Stream.threaded, worker] at threaded
  | crashed f =>
      have stopped : s.worker ≠ .running := by simp [worker]
      exact absurd ((congrArg Stream.worker (settle_of_not_running stopped)).trans worker) (survives f)

/-- From `s` to `t` some packets were taken in and decoded, before any render of the worker. -/
structure Brought (s t : Stream σ) (ps : List Packet) (i : Inlet) : Prop where
  inlet : t.inlet = i
  pending : t.pending = []
  pushesBack : t.pushesBack = s.pushesBack
  decoded : decoded t.backend.calls = decoded s.backend.calls ++ ps
  log : ∃ renders before, t.backend.calls = renders ++ (before ++ s.backend.calls) ∧
    (∀ c ∈ renders, c.packet? = none) ∧ ∀ c ∈ before, c.isAhead = false

theorem Takes.settle (takes : Takes s t ps i) (awake : t.pending = [] ∨ t.worker = .running) :
    Brought s t.settle ps i := by
  obtain ⟨inlet, pending, pushesBack, renders, log, ahead⟩ := caughtUp_settle awake
  obtain ⟨new, grown, silent⟩ := takes.log
  have quiet : ∀ c ∈ renders, c.packet? = none := fun c member => Call.packet?_of_isAhead (ahead c member)
  refine ⟨inlet.trans takes.inlet, pending, pushesBack.trans takes.pushesBack, ?_,
    renders, (t.pending.map Call.decode).reverse ++ new, ?_, quiet, List.forall_mem_append.2 ⟨?_, silent⟩⟩
  · rw [log, decoded_append, decoded_eq_nil_iff.2 quiet, List.append_nil, decoded_decodes, takes.arrived]
  · rw [log, grown, List.append_assoc]
  · simp [Call.isAhead]

omit [Backend σ] in
theorem Brought.trans {r : Stream σ} {j : Inlet} (first : Brought s r ps j) (second : Brought r t [] i) :
    Brought s t ps i := by
  obtain ⟨renders, before, log, quiet, silent⟩ := first.log
  obtain ⟨renders', before', log', quiet', -⟩ := second.log
  have same := second.decoded
  rw [List.append_nil, log', decoded_append, decoded_append, decoded_eq_nil_iff.2 quiet', List.append_nil] at same
  have nothing : ∀ c ∈ before', c.packet? = none := decoded_eq_nil_iff.1 (List.append_right_eq_self.1 same)
  refine ⟨second.inlet, second.pending, second.pushesBack.trans first.pushesBack, ?_,
    renders' ++ (before' ++ renders), before, ?_, ?_, silent⟩
  · rw [second.decoded, first.decoded, List.append_nil]
  · rw [log', log, List.append_assoc, List.append_assoc]
  · exact List.forall_mem_append.2 ⟨quiet', List.forall_mem_append.2 ⟨nothing, quiet⟩⟩

omit [Backend σ] in
theorem Brought.rendersDecoded (brought : Brought s t ps i) : RendersDecoded s.backend.calls t.backend.calls := by
  obtain ⟨renders, before, log, quiet, silent⟩ := brought.log
  rw [log]
  exact rendersDecoded_of_append quiet silent

end Stream
end Subtitles
