/-
# Proofs.Stream.Beside: one stream with a worker and one without

Two streams over one source stand `Beside` each other when they have read the same, and the worker
of the one has only the pending packets left to come to the events of the other. They answer reads
and questions for text alike, and what either does without reading keeps them so.
-/
import Subtitles.Proofs.Stream.Steady
namespace Subtitles

set_option autoImplicit false

namespace Stream

variable {plain plain' ahead ahead' : Stream TextBackend}

structure Beside (plain ahead : Stream TextBackend) : Prop where
  source : plain.source = ahead.source
  lastRead : plain.lastRead = ahead.lastRead
  drained : plain.drained = ahead.drained
  visible : plain.options.visible = ahead.options.visible
  alone : plain.worker = .absent
  roomy : plain.pushesBack = false
  unqueued : plain.cache.queue = []
  events : plain.backend.state.SameEvents (ahead.backend.state.decodes ahead.pending)

namespace Beside

theorem threaded_eq (beside : Beside plain ahead) : plain.threaded = false := by
  rw [threaded, beside.alone]
  rfl

/-- Neither reads, and the one without a worker queues nothing. -/
theorem kept (beside : Beside plain ahead) (left : Kept plain plain') (right : Kept ahead ahead')
    (worker : plain'.worker = plain.worker) (cache : plain'.cache = plain.cache) : Beside plain' ahead' where
  source := left.source.trans (beside.source.trans right.source.symm)
  lastRead := left.lastRead.trans (beside.lastRead.trans right.lastRead.symm)
  drained := left.drained.trans (beside.drained.trans right.drained.symm)
  visible := by rw [left.options, right.options, beside.visible]
  alone := worker.trans beside.alone
  roomy := left.pushesBack.trans beside.roomy
  unqueued := cache ▸ beside.unqueued
  events := by
    rw [right.pending]
    exact left.events.symm.trans (beside.events.trans (right.events.decodes _))

/-- Decoding what is pending only carries out what counts as done. -/
theorem round (beside : Beside plain ahead) (steady : ahead.Steady) (round : Round ahead ahead') :
    Beside plain ahead' := by
  cases round with
  | decode =>
      refine ⟨beside.source, beside.lastRead, beside.drained, beside.visible, beside.alone, beside.roomy,
        beside.unqueued, ?_⟩
      show plain.backend.state.SameEvents (ahead.pending.foldl _ ahead.backend).state
      rw [state_foldl_decode]
      exact beside.events
  | render _ _ next =>
      obtain ⟨since, faithful⟩ := steady.faithful
      obtain ⟨lost, con⟩ := faithful.cache
      exact beside.kept (.refl _) (kept_carryOut con (nextJob_spec next).2.1 _) rfl rfl

theorem settle (beside : Beside plain ahead) (steady : ahead.Steady) : Beside plain.settle ahead.settle := by
  have still : plain.settle = plain := settle_of_not_running (by rw [beside.alone]; exact nofun)
  rw [still]
  have both := settle_induction (P := fun t => t.Steady ∧ Beside plain t) (s := ahead) ⟨steady, beside⟩
    fun t t' before round => ⟨(before.1.round round).1, before.2.round before.1 round⟩
  exact both.2

/-! ## Calls to both -/

/-- Both take in what was read. -/
theorem takeIn (beside : Beside plain ahead) (threaded : ahead.threaded = true) (r : Reading) :
    Beside (plain.takeIn r) (ahead.takeIn r) := by
  rw [takeIn_of_not_threaded beside.threaded_eq, takeIn_of_threaded threaded]
  refine ⟨by rw [beside.source], by rw [beside.lastRead], beside.drained, beside.visible, beside.alone,
    beside.roomy, beside.unqueued, ?_⟩
  show TextBackend.SameEvents (r.taken.foldl _ plain.backend).state
    (ahead.backend.state.decodes (ahead.pending ++ r.taken))
  rw [state_foldl_decode, TextBackend.decodes_append]
  exact beside.events.decodes r.taken

theorem readUntil (beside : Beside plain ahead) (steady : ahead.Steady) (pts : Binary64) :
    (plain.readUntil pts).1 = (ahead.readUntil pts).1 ∧
      Beside (plain.readUntil pts).2 (ahead.readUntil pts).2 := by
  obtain ⟨since, faithful⟩ := steady.faithful
  have saw : plain.sawBeyond pts = ahead.sawBeyond pts := by rw [sawBeyond, sawBeyond, beside.lastRead]
  by_cases done : (ahead.drained || ahead.sawBeyond pts) = true
  · have left : plain.readUntil pts = (true, plain) := by
      rw [Stream.readUntil, if_pos (by rw [beside.drained, saw, done]; rfl)]
    have right : ahead.readUntil pts = (true, ahead) := by
      rw [Stream.readUntil, if_pos (by rw [done]; rfl)]
    rw [left, right]
    exact ⟨rfl, beside⟩
  · obtain ⟨drained, unseen⟩ := Bool.or_eq_false_iff.1 (Bool.not_eq_true _ ▸ done)
    rw [readUntil_eq pts drained unseen steady.roomy,
      readUntil_eq pts (beside.drained.trans drained) (saw.trans unseen) beside.roomy, beside.source]
    exact ⟨rfl, beside.takeIn faithful.threaded _⟩

theorem request (beside : Beside plain ahead) (pts : Binary64) :
    Beside (plain.request pts) (ahead.request pts) := by
  rw [request_of_not_threaded beside.threaded_eq]
  unfold Stream.request
  split
  · exact ⟨beside.source, beside.lastRead, beside.drained, beside.visible, beside.alone, beside.roomy,
      beside.unqueued, beside.events⟩
  · exact beside

theorem prepare (beside : Beside plain ahead) (steady : ahead.Steady) (pts : Binary64) :
    (plain.prepare pts).1 = (ahead.prepare pts).1 ∧ Beside (plain.prepare pts).2 (ahead.prepare pts).2 := by
  obtain ⟨same, beside'⟩ := beside.readUntil steady pts
  refine ⟨same, ?_⟩
  show Beside (if (plain.readUntil pts).1 then _ else _) (if (ahead.readUntil pts).1 then _ else _)
  rw [same]
  split
  · exact beside'.request pts
  · exact beside'

theorem drain (beside : Beside plain ahead) (steady : ahead.Steady) :
    plain.drain.1 = ahead.drain.1 ∧ Beside plain.drain.2 ahead.drain.2 := by
  obtain ⟨since, faithful⟩ := steady.faithful
  obtain ⟨ps, source⟩ := steady.inOrder.source
  have closed : ahead.source.isOpen = false := by rw [source]; rfl
  rw [drain_of_threaded faithful.threaded steady.roomy closed,
    drain_of_not_threaded beside.threaded_eq beside.roomy (beside.source ▸ closed), beside.source]
  refine ⟨rfl, rfl, beside.lastRead, rfl, beside.visible, beside.alone, beside.roomy, beside.unqueued, ?_⟩
  show TextBackend.SameEvents (ahead.source.untilEnd.foldl _ plain.backend).state
    (ahead.backend.state.decodes (ahead.pending ++ ahead.source.untilEnd))
  rw [state_foldl_decode, TextBackend.decodes_append]
  exact beside.events.decodes _

theorem events_of_idle (beside : Beside plain ahead) (idle : ahead.Idle) :
    plain.backend.state.SameEvents ahead.backend.state := by
  have events := beside.events
  rw [idle.decoded] at events
  exact events

theorem text (beside : Beside plain ahead) (idle : ahead.Idle) (pts : Binary64) :
    (plain.text pts).1 = (ahead.text pts).1 ∧ Beside (plain.text pts).2 (ahead.text pts).2 := by
  have same : plain.backend.state.text? pts = ahead.backend.state.text? pts := by
    rw [TextBackend.text?, TextBackend.text?, (beside.events_of_idle idle).active pts]
  unfold Stream.text
  rw [beside.visible]
  split
  · have told : ∀ (s : Stream TextBackend) (c : Call),
        Kept s { s with backend := { s.backend with calls := c :: s.backend.calls } } :=
      fun _ _ => ⟨rfl, rfl, rfl, rfl, rfl, rfl, .refl _⟩
    exact ⟨same, beside.kept (told plain _) (told ahead _) rfl rfl⟩
  · exact ⟨rfl, beside⟩

theorem reset (beside : Beside plain ahead) (steady : ahead.Steady) (idle : ahead.Idle) :
    ∃ tp ta, plain.reset = .ok tp ∧ ahead.reset = .ok ta ∧ ta.Steady ∧ Undisturbed ahead ta ∧
      tp.reserved = plain.reserved ∧ Beside tp ta := by
  obtain ⟨c, reset, steady'⟩ := steady.reset idle
  have flushed : plain.cache.flush = .ok { plain.cache with queue := [] } := by
    rw [Cache.flush, beside.unqueued]
    rfl
  refine ⟨{ plain with
      backend := plain.backend.reset, lastRead := none, cache := { plain.cache with queue := [] }, pending := [] },
    _, ?_, reset, steady', ⟨rfl, rfl, rfl, rfl, rfl⟩, rfl, ?_⟩
  · rw [Stream.reset, flushed]
    rfl
  · have events := beside.events_of_idle idle
    exact ⟨beside.source, rfl, beside.drained, beside.visible, beside.alone, beside.roomy, rfl,
      ⟨events.events, events.nextId, events.atTop⟩⟩

/-! ## Frames of both -/

/-- Without a worker every frame is rendered on demand. -/
theorem acquire_plain (beside : Beside plain ahead) (g : Geometry) (pts : Binary64) :
    plain.acquire g pts = plain.renderOnDemand g pts := by
  unfold Stream.acquire lookUp
  rw [beside.threaded_eq]
  rfl

/-- Both give out the same picture, unless a render overflows. -/
theorem acquire (beside : Beside plain ahead) (steady : ahead.Steady) (idle : ahead.Idle)
    (unreserved : plain.reserved = false) (free : ahead.Holds none) (g : Geometry) (pts : Binary64) :
    (∃ op, (ahead.acquire g pts).1 = .fault (.overflow op)) ∨
      ∃ f f' hold tp ta, plain.acquire g pts = (.frame ⟨pts, f, .reserved⟩, tp) ∧
        ahead.acquire g pts = (.frame ⟨pts, f', hold⟩, ta) ∧ f.SameContent f' ∧ tp.reserved = true ∧
        ta.Steady ∧ ta.worker = ahead.worker ∧ ta.Holds (some hold) ∧ Beside tp ta := by
  obtain ⟨ta, steady', kept, worker, ⟨f', hold, answer, draws, holds⟩ | ⟨op, answer⟩⟩ :=
    steady.acquire idle free g pts
  · refine .inr ?_
    have draws' := draws.of_sameEvents (beside.events_of_idle idle).symm
    obtain ⟨f, rendered, drawn⟩ | ⟨op, -, fails⟩ := renderOnDemand_text unreserved g pts
    · refine ⟨f, f', hold, _, ta, (beside.acquire_plain g pts).trans rendered, answer,
        drawn.sameContent draws', rfl, steady', worker, holds, ?_⟩
      exact beside.kept (kept_render plain .demand g pts true) kept rfl rfl
    · obtain ⟨parts, drawn, -⟩ := draws'
      rw [fails] at drawn
      exact absurd drawn nofun
  · exact .inl ⟨op, by rw [answer]⟩

end Beside
end Stream
end Subtitles
