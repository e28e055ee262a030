/-
# Proofs.Session.Preload: after the source was drained

Whatever accesses and rounds ask of the backend is in its log, and without a worker nothing waits to
be decoded (`run_attended`). A drain that is answered leaves everything decoded, unless a fault ended
the worker before (`preloaded_drain`). From then on no action but another drain brings anything in: none of
the calls that are added to the log decodes, and a command among them was passed on by an action
(`run_grows`).
-/
import Subtitles.Proofs.Session.ChangeNumbers
import Subtitles.Proofs.Session.Workers
import Subtitles.Proofs.Stream.Inlet
namespace Subtitles

set_option autoImplicit false

open LoggedBackend (Served)

/-- The command of a call that passes one on. -/
def Call.command? : Call → Option Command
  | .control command => some command
  | _ => none

theorem Call.command?_of_isAhead {c : Call} (ahead : c.isAhead = true) : c.command? = none := by
  cases c with
  | control command => cases ahead
  | _ => rfl

/-- The command that an action passes on. -/
def Action.command? : Action → Option Command
  | .control command => some command
  | .video params => some (.video params)
  | _ => none

namespace Stream

variable {σ : Type} [Backend σ] {fresh : σ} {s t : Stream σ}

/-! ## The backend and its log -/

/-- The backend was served by its log, and without a worker nothing waits to be decoded. -/
structure Attended (fresh : σ) (s : Stream σ) : Prop where
  served : Served fresh s.backend
  waits : s.pending ≠ [] → s.threaded = true

theorem Attended.of_served (attended : s.Attended fresh) (served : Served fresh t.backend)
    (pending : t.pending = s.pending) (worker : t.worker = s.worker) : t.Attended fresh :=
  ⟨served, fun waits => threaded_congr worker ▸ attended.waits (pending ▸ waits)⟩

theorem Attended.access (attended : s.Attended fresh) (access : s.Access t) : t.Attended fresh := by
  have served := attended.served
  cases access with
  | packets source lastRead drained ps =>
      unfold enter
      split
      · next threaded => exact ⟨served, fun _ => threaded⟩
      · exact attended.of_served (served.decodes ps) rfl rfl
  | request pts =>
      unfold request
      split
      · exact attended.of_served served rfl rfl
      · exact attended
  | text pts =>
      unfold text
      split
      · exact attended.of_served (.text pts served) rfl rfl
      · exact attended
  | select on => exact attended.of_served (.select on served) rfl rfl
  | control command => exact attended.of_served (.control command served) rfl rfl
  | video params =>
      unfold noteVideo
      split
      · exact attended
      · exact attended.of_served (.control (.video params) served) rfl rfl
  | reset done =>
      obtain ⟨cache, -, rfl⟩ := reset_cases done
      exact ⟨.reset served, fun waits => absurd rfl waits⟩
  | @resume pts h out =>
      obtain ⟨cache, current, resumed⟩ := resume_frame pts h s
      rw [resumed]
      exact attended.of_served served rfl rfl
  | demand g pts =>
      obtain ⟨reserved, backend, rendered, rfl | rfl⟩ := demand_frame g pts s
      · rw [rendered]
        exact attended.of_served served rfl rfl
      · rw [rendered]
        exact attended.of_served (.render .demand g pts served) rfl rfl
  | release released =>
      obtain ⟨h, cache, -, -, -, rfl⟩ | ⟨-, -, rfl⟩ := release_cases released <;> exact attended.of_served served rfl rfl

theorem Attended.accesses (attended : s.Attended fresh) (accesses : s.Accesses t) : t.Attended fresh := by
  induction accesses with
  | refl => exact attended
  | tail _ access ih => exact ih.access access

/-- There is a round only where there is a worker, so what waits is its own. -/
theorem Attended.round (attended : s.Attended fresh) (round : Round s t) : t.Attended fresh := by
  cases round with
  | decode _ _ => exact ⟨attended.served.decodes s.pending, fun waits => absurd rfl waits⟩
  | @render job pts _ decoded _ =>
      obtain ⟨pending, backend⟩ := carryOut_backend job pts s
      refine ⟨?_, fun waits => absurd (pending.trans decoded) waits⟩
      obtain same | became := backend
      · rw [same]
        exact attended.served
      · rw [became]
        exact .render .ahead s.geometry pts attended.served

/-! ## What is added to the log -/

/-- The source was drained, and everything is decoded. -/
structure Preloaded (s : Stream σ) : Prop where
  drained : s.drained = true
  pending : s.pending = []

/-- From `s` to `t` nothing was decoded, and none but these commands were passed on. -/
structure Grows (commands : List Command) (s t : Stream σ) : Prop where
  preloaded : t.Preloaded
  log : ∃ new, t.backend.calls = new ++ s.backend.calls ∧
    ∀ c ∈ new, c.packet? = none ∧ ∀ command, c.command? = some command → command ∈ commands

variable {commands : List Command}

omit [Backend σ] in
theorem Preloaded.of_same (preloaded : s.Preloaded) (drained : t.drained = s.drained) (pending : t.pending = s.pending)
    (log : t.backend.calls = s.backend.calls) : Grows commands s t :=
  ⟨⟨drained.trans preloaded.drained, pending.trans preloaded.pending⟩, [], log, List.forall_mem_nil _⟩

omit [Backend σ] in
theorem Preloaded.of_call {c : Call} (preloaded : s.Preloaded) (drained : t.drained = s.drained)
    (pending : t.pending = []) (log : t.backend.calls = c :: s.backend.calls) (decodes : c.packet? = none)
    (passes : ∀ command, c.command? = some command → command ∈ commands) : Grows commands s t :=
  ⟨⟨drained.trans preloaded.drained, pending⟩, [c], log, List.forall_mem_singleton.2 ⟨decodes, passes⟩⟩

omit [Backend σ] in
/-- A call that is no command. -/
theorem Preloaded.of_passing {c : Call} (preloaded : s.Preloaded) (drained : t.drained = s.drained)
    (pending : t.pending = []) (log : t.backend.calls = c :: s.backend.calls) (decodes : c.packet? = none)
    (passes : c.command? = none) : Grows commands s t :=
  preloaded.of_call drained pending log decodes fun command is => by
    rw [passes] at is
    cases is

omit [Backend σ] in
theorem Preloaded.refl (preloaded : s.Preloaded) : Grows commands s s := preloaded.of_same rfl rfl rfl

omit [Backend σ] in
theorem Grows.trans {r : Stream σ} {others : List Command} (first : Grows commands s r) (second : Grows others r t)
    (among : others ⊆ commands) : Grows commands s t := by
  obtain ⟨-, new, log, quiet⟩ := first
  obtain ⟨preloaded, new', log', quiet'⟩ := second
  refine ⟨preloaded, new' ++ new, by rw [log', log, List.append_assoc], List.forall_mem_append.2 ⟨?_, quiet⟩⟩
  exact fun c member => ⟨(quiet' c member).1, fun command passed => among ((quiet' c member).2 command passed)⟩

omit [Backend σ] in
theorem Grows.decoded_eq (grows : Grows commands s t) : decoded t.backend.calls = decoded s.backend.calls := by
  obtain ⟨-, new, log, quiet⟩ := grows
  rw [log, decoded_append, decoded_eq_nil_iff.2 fun c member => (quiet c member).1, List.append_nil]

/-- The worker has nothing to decode, and renders at most. -/
theorem Preloaded.settle (preloaded : s.Preloaded) : Grows commands s s.settle := by
  obtain ⟨inlet, pending, -, renders, log, ahead⟩ := caughtUp_settle (.inl preloaded.pending)
  rw [preloaded.pending] at log
  refine ⟨⟨(congrArg Inlet.drained inlet).trans preloaded.drained, pending⟩, renders, log, fun c member => ?_⟩
  refine ⟨Call.packet?_of_isAhead (ahead c member), fun command passed => ?_⟩
  rw [Call.command?_of_isAhead (ahead c member)] at passed
  cases passed

theorem Preloaded.prepare (preloaded : s.Preloaded) (pts : Binary64) : Grows commands s (s.prepare pts).2 := by
  have read : s.readUntil pts = (true, s) := by rw [readUntil, preloaded.drained]; rfl
  have requested : (s.prepare pts).2 = s.request pts := by rw [Stream.prepare, read]; rfl
  rw [requested, request]
  split
  · exact preloaded.of_same rfl rfl rfl
  · exact preloaded.refl

theorem Preloaded.acquire (preloaded : s.Preloaded) (g : Geometry) (pts : Binary64) :
    Grows commands s (s.acquire g pts).2 := by
  obtain ⟨geometry, cache, current, reserved, backend, acquired, rfl | rfl⟩ := acquire_frame g pts s
  · rw [acquired]
    exact preloaded.of_same rfl rfl rfl
  · obtain ⟨new, log, renders⟩ := s.backend.calls_render .demand g pts
    rw [acquired]
    refine ⟨⟨preloaded.drained, preloaded.pending⟩, new, log, fun c member => ?_⟩
    obtain ⟨frame, rfl⟩ := renders c member
    exact ⟨rfl, nofun⟩

end Stream

/-! ## Sessions -/

namespace Session

variable {σ : Type} [Backend σ] {fresh : σ} {s t : Session σ}

theorem turn_attended (attended : s.stream.Attended fresh) {a : Action} (alone : ∀ pts g, a ≠ .overtake pts g) :
    (s.turn a).Attended fresh := by
  cases a with
  | acquire g pts =>
      obtain ⟨geometry, cache, current, reserved, backend, acquired, rfl | rfl⟩ := Stream.acquire_frame g pts s.stream
      · rw [turn, acquired]
        exact attended.of_served attended.served rfl rfl
      · rw [turn, acquired]
        exact attended.of_served (.render .demand g pts attended.served) rfl rfl
  | _ => exact attended.accesses (s.accesses_turn alone fun _ _ same => by cases same)

theorem step_attended (attended : s.stream.Attended fresh) {a : Action} (alone : ∀ pts g, a ≠ .overtake pts g) :
    (s.step a).2.stream.Attended fresh :=
  step_induction attended (turn_attended attended alone) fun _ _ attended round => attended.round round

theorem run_attended (attended : s.stream.Attended fresh) {actions : List Action}
    (alone : ∀ pts g, .overtake pts g ∉ actions) : (s.run actions).2.stream.Attended fresh :=
  run_induction (P := fun s => s.stream.Attended fresh) attended fun _ _ member attended =>
    step_attended attended fun pts g same => alone pts g (same ▸ member)

theorem opened_attended (codec : Codec) (source : Source) (options : Options) (fresh : σ) :
    (opened codec source options fresh).stream.Attended fresh :=
  ⟨.start, fun waits => absurd rfl waits⟩

theorem drained_of_perform (answer : (s.perform .drain).1 = .flag true) : (s.turn .drain).drained = true := by
  rw [perform] at answer
  rw [turn]
  cases isOpen : s.stream.source.isOpen with
  | true =>
      rw [isOpen] at answer
      cases answer
  | false =>
      rw [isOpen, if_neg Bool.false_ne_true] at answer
      rw [if_neg Bool.false_ne_true]
      cases room : s.stream.pushesBack with
      | true =>
          rw [Stream.drain, room] at answer
          cases answer
      | false => rw [Stream.drain_eq room isOpen]

/-- An answered drain leaves everything decoded, unless a fault ended the worker. -/
theorem preloaded_drain (attended : s.stream.Attended fresh) (drained : s.step .drain = (.flag true, t))
    (survives : ∀ fault, t.stream.worker ≠ .crashed fault) : t.stream.Preloaded := by
  rw [step_eq (goesOn_of_answer drained nofun)] at drained
  obtain ⟨answer, rfl⟩ := Prod.mk.inj drained
  have attended' : (s.turn .drain).Attended fresh := turn_attended attended nofun
  have awake := Stream.awake_of_survives attended'.waits survives
  obtain ⟨inlet, pending, -⟩ := Stream.caughtUp_settle awake
  exact ⟨(congrArg Inlet.drained inlet).trans (drained_of_perform answer), pending⟩

/-- Once the source was drained an action brings nothing in, unless it drains again. -/
theorem turn_grows (preloaded : s.stream.Preloaded) {a : Action} (alone : ∀ pts g, a ≠ .overtake pts g)
    (other : a ≠ .drain) : Stream.Grows a.command?.toList s.stream (s.turn a) := by
  have pending := preloaded.pending
  cases a with
  | offer p =>
      have same : s.turn (.offer p) = s.stream := if_pos preloaded.drained
      rw [same]
      exact preloaded.refl
  | request pts =>
      rw [turn, Stream.request]
      split
      · exact preloaded.of_same rfl rfl rfl
      · exact preloaded.refl
  | prepare pts => exact preloaded.prepare pts
  | drain => exact absurd rfl other
  | text pts =>
      rw [turn, Stream.text]
      split
      · exact preloaded.of_passing (c := .text pts) rfl pending rfl rfl rfl
      · exact preloaded.refl
  | control command =>
      refine preloaded.of_call (c := .control command) rfl pending rfl rfl fun other passed => ?_
      rw [← Option.some.inj passed]
      exact List.mem_singleton.2 rfl
  | select on => exact preloaded.of_passing (c := .select on) rfl pending rfl rfl rfl
  | video params =>
      rw [turn, Stream.noteVideo]
      split
      · exact preloaded.refl
      · refine preloaded.of_call (c := .control (.video params)) rfl pending rfl rfl fun other passed => ?_
        rw [← Option.some.inj passed]
        exact List.mem_singleton.2 rfl
  | reset =>
      obtain kept | reset := s.turn_reset_cases
      · rw [kept]
        exact preloaded.refl
      · obtain ⟨cache, -, became⟩ := Stream.reset_cases reset
        rw [became]
        exact preloaded.of_passing (c := .reset) rfl rfl rfl rfl rfl
  | acquire g pts => exact preloaded.acquire g pts
  | release =>
      obtain kept | ⟨f, -, released⟩ := s.turn_release_cases
      · rw [kept]
        exact preloaded.refl
      · obtain ⟨h, cache, -, -, -, became⟩ | ⟨-, -, became⟩ := Stream.release_cases released <;>
          exact became ▸ preloaded.of_same rfl rfl rfl
  | send p =>
      obtain kept | ⟨source, -, became⟩ := s.turn_send_cases p
      · rw [kept]
        exact preloaded.refl
      · rw [became]
        exact preloaded.of_same rfl rfl rfl
  | close => exact preloaded.of_same rfl rfl rfl
  | overtake pts g => exact absurd rfl (alone pts g)

theorem step_grows (preloaded : s.stream.Preloaded) {a : Action} (alone : ∀ pts g, a ≠ .overtake pts g)
    (other : a ≠ .drain) : Stream.Grows a.command?.toList s.stream (s.step a).2.stream := by
  unfold step
  split
  · exact preloaded.refl
  · show Stream.Grows _ s.stream (s.perform a).2.stream.settle
    rw [stream_perform]
    have turned := turn_grows preloaded alone other
    exact turned.trans turned.preloaded.settle (List.Subset.refl _)

/-- Nor do many. -/
theorem run_grows (preloaded : s.stream.Preloaded) {actions : List Action}
    (alone : ∀ pts g, .overtake pts g ∉ actions) (other : .drain ∉ actions) :
    Stream.Grows (actions.filterMap Action.command?) s.stream (s.run actions).2.stream := by
  refine run_induction (P := fun t => Stream.Grows _ s.stream t.stream) preloaded.refl fun t a member grows => ?_
  have stepped := step_grows grows.preloaded (fun pts g same => alone pts g (same ▸ member))
    fun same => other (same ▸ member)
  refine grows.trans stepped fun command passed => ?_
  exact List.mem_filterMap.2 ⟨a, member, Option.mem_toList.1 passed⟩

end Session
end Subtitles
