/-
# Proofs.Stream.Steady: a stream of text that renders ahead in order

A `Steady` stream is faithful and in order. While nothing is out and its worker sleeps, an acquire
answers with what is active at its time, or with the overflow of a render (`Steady.acquire`), and
the frame can be given back (`Steady.release`). Everything else that a caller does leaves the
stream steady too, and so does the worker, which nothing but an overflow ends (`Steady.settle`).
-/
import Subtitles.Proofs.Stream.InOrder
namespace Subtitles

set_option autoImplicit false

namespace Stream

variable {s s' : Stream TextBackend}

structure Steady (s : Stream TextBackend) : Prop where
  faithful : ∃ since, s.Faithful ({} : TextBackend) since
  inOrder : s.InOrder
  roomy : s.pushesBack = false

/-- What is out, if anything. -/
def Holds (s : Stream TextBackend) : Option Holding → Prop
  | none => s.current = none ∧ s.reserved = false
  | some (.cached h) => s.current = some h ∧ s.reserved = false
  | some .reserved => s.current = none ∧ s.reserved = true

theorem soundChanges_text : LoggedBackend.SoundChanges ({} : TextBackend) :=
  TextBackend.soundChanges ⟨List.nodup_nil, fun _ member => absurd member List.not_mem_nil⟩ rfl

/-- The worker goes on, or an overflow ended it. -/
def GoesOn (s : Stream TextBackend) : Prop := s.worker = .running ∨ ∃ op, s.worker = .crashed (.overflow op)

theorem Steady.round (steady : s.Steady) (round : Round s s') : s'.Steady ∧ s'.GoesOn := by
  obtain ⟨since, faithful⟩ := steady.faithful
  obtain ⟨lost, con⟩ := faithful.cache
  obtain ⟨inOrder, goesOn⟩ := steady.inOrder.round con round
  refine ⟨⟨⟨since, faithful.round soundChanges_text round⟩, inOrder, ?_⟩, goesOn⟩
  rw [round.frame]
  exact steady.roomy

theorem Holds.round {out : Option Holding} (holds : s.Holds out) (round : Round s s') : s'.Holds out := by
  rw [round.frame]
  match out with
  | none => exact holds
  | some (.cached h) => exact holds
  | some .reserved => exact holds

theorem Holds.undisturbed {out : Option Holding} (holds : s.Holds out) (same : Undisturbed s s') :
    s'.Holds out := by
  match out with
  | none => exact ⟨same.current.trans holds.1, same.reserved.trans holds.2⟩
  | some (.cached h) => exact ⟨same.current.trans holds.1, same.reserved.trans holds.2⟩
  | some .reserved => exact ⟨same.current.trans holds.1, same.reserved.trans holds.2⟩

/-! ## Taking a frame out -/

theorem kept_render (s : Stream TextBackend) (purpose : Purpose) (g : Geometry) (pts : Binary64)
    (reserved : Bool) : Kept s { s with backend := (s.backend.render purpose g pts).2, reserved } :=
  ⟨rfl, rfl, rfl, rfl, rfl, rfl, (render_text purpose g pts s.backend).1⟩

/-- Nothing is rendered ahead on demand. -/
theorem ahead_of_demand {g g' : Geometry} {pts pts' : Binary64} {f : Frame} {b : LoggedBackend TextBackend}
    (call : Call.render .ahead pts' g' f ∈ (b.render .demand g pts).2.calls) :
    Call.render .ahead pts' g' f ∈ b.calls := by
  obtain ⟨-, ⟨frame, -, -, calls⟩ | ⟨op, -, -, calls⟩⟩ := render_text .demand g pts b
  · rw [calls] at call
    rcases List.mem_cons.1 call with here | before
    · exact absurd here nofun
    · exact before
  · rwa [calls] at call

/-- A frame on demand shows what is active, or its render overflows. -/
theorem renderOnDemand_text (free : s.reserved = false) (g : Geometry) (pts : Binary64) :
    (∃ frame, s.renderOnDemand g pts = (.frame ⟨pts, frame, .reserved⟩,
        { s with backend := (s.backend.render .demand g pts).2, reserved := true }) ∧
      s.backend.state.Draws g pts frame) ∨
    ∃ op, s.renderOnDemand g pts = (.fault (.overflow op),
        { s with backend := (s.backend.render .demand g pts).2, reserved := true }) ∧
      TextBackend.drawn (s.backend.state.active pts) g s.backend.state.atTop = .error (.overflow op) := by
  unfold renderOnDemand
  rw [free, if_neg Bool.false_ne_true]
  obtain ⟨-, ⟨frame, answer, draws, -⟩ | ⟨op, answer, fails, -⟩⟩ := render_text .demand g pts s.backend
  · refine .inl ⟨frame, ?_, draws⟩
    simp only [answer]
  · refine .inr ⟨op, ?_, fails⟩
    simp only [answer]

/-- The geometry is adopted without a fault; where it is another one nothing stays queued. -/
theorem Steady.adopt (steady : s.Steady) (g : Geometry) :
    ∃ c g', s.adopt g = .ok { s with geometry := g', cache := c } ∧
      (∃ since, { s with geometry := g', cache := c }.Faithful ({} : TextBackend) since) ∧ g'.isVoid = g.isVoid ∧
      ((c = s.cache ∧ g' = s.geometry ∧ s.geometry.Same g) ∨ c.queue = []) := by
  obtain ⟨since, faithful⟩ := steady.faithful
  obtain ⟨same, adopted⟩ | ⟨-, b, adopted, empty, faithful'⟩ := faithful.adopt g
  · exact ⟨s.cache, s.geometry, adopted, ⟨since, faithful⟩, same.isVoid_eq, .inl ⟨rfl, rfl, same⟩⟩
  · exact ⟨b, g, adopted, ⟨_, faithful'⟩, rfl, .inr empty⟩

/-- A frame on demand after what is queued was pruned, for a geometry adopted or not. -/
theorem InOrder.renderOnDemand (inOrder : s.InOrder) (free : s.Holds none) (g' : Geometry) {b : Cache}
    (queue : ∀ h ∈ b.queue, h ∈ s.cache.queue ∧ b.pts? h = s.cache.pts? h) (g : Geometry) (pts : Binary64) :
    ∃ t, t.InOrder ∧ Kept s t ∧ t.worker = s.worker ∧
      ((∃ frame, Stream.renderOnDemand g pts { s with geometry := g', cache := b } =
            (.frame ⟨pts, frame, .reserved⟩, t) ∧
          s.backend.state.Draws g pts frame ∧ t.Holds (some .reserved)) ∨
        ∃ op, Stream.renderOnDemand g pts { s with geometry := g', cache := b } = (.fault (.overflow op), t)) := by
  let t : Stream TextBackend := { s with
    geometry := g', cache := b, reserved := true
    backend := (s.backend.render .demand g pts).2 }
  have kept : Kept s t := ⟨rfl, rfl, rfl, rfl, rfl, rfl, (render_text .demand g pts s.backend).1⟩
  have inOrder' : t.InOrder := inOrder.carry kept (fun _ _ _ call => .inl (ahead_of_demand call)) queue
  refine ⟨t, inOrder', kept, rfl, ?_⟩
  obtain ⟨frame, answer, draws⟩ | ⟨op, answer, -⟩ :=
    renderOnDemand_text (s := { s with geometry := g', cache := b }) free.2 g pts
  · exact .inl ⟨frame, answer, draws, free.1, rfl⟩
  · exact .inr ⟨op, answer⟩

/-- An acquire answers with what is active at its time, or with an overflow. -/
theorem Steady.acquire (steady : s.Steady) (idle : s.Idle) (free : s.Holds none) (g : Geometry)
    (pts : Binary64) :
    ∃ t, t.Steady ∧ Kept s t ∧ t.worker = s.worker ∧
      ((∃ frame hold, s.acquire g pts = (.frame ⟨pts, frame, hold⟩, t) ∧
          s.backend.state.Draws g pts frame ∧ t.Holds (some hold)) ∨
        ∃ op, s.acquire g pts = (.fault (.overflow op), t)) := by
  obtain ⟨since, faithful⟩ := steady.faithful
  obtain ⟨noFrame, unreserved⟩ := free
  have after : ∃ since', (s.acquire g pts).2.Faithful ({} : TextBackend) since' := by
    by_cases same : s.geometry.Same g
    · exact ⟨since, (faithful.acquire_same same pts).1⟩
    · exact ⟨_, (faithful.acquire_other same pts).1⟩
  obtain ⟨c, g', adopted, ⟨since₁, faithful₁⟩, void, stays⟩ := steady.adopt g
  have queue : ∀ {b : Cache}, Cache.Carries none c b →
      ∀ h ∈ b.queue, h ∈ s.cache.queue ∧ b.pts? h = s.cache.pts? h := by
    intro b carries h member
    rcases stays with ⟨rfl, -, -⟩ | empty
    · exact ⟨carries.queued h member, carries.pts h member⟩
    · exact absurd member (carries.not_mem empty h)
  have out := faithful₁.takenOut g void pts
  have taken := lookUp_eq faithful.threaded adopted pts
  generalize takeOut g pts _ = result at out taken
  cases out with
  | refused busy => simp [noFrame, unreserved] at busy
  | @miss b _ _ carries _ =>
      obtain ⟨t, inOrder, kept, worker, ⟨frame, answer, draws, holds⟩ | ⟨op, answer⟩⟩ :=
        steady.inOrder.renderOnDemand ⟨noFrame, unreserved⟩ g' (queue carries) g pts
      · have acquired : s.acquire g pts = (.frame ⟨pts, frame, .reserved⟩, t) := by
          rw [Stream.acquire, taken]
          exact answer
        rw [acquired] at after ⊢
        exact ⟨t, ⟨after, inOrder, kept.pushesBack.trans steady.roomy⟩, kept, worker,
          .inl ⟨frame, .reserved, rfl, draws, holds⟩⟩
      · have acquired : s.acquire g pts = (.fault (.overflow op), t) := by
          rw [Stream.acquire, taken]
          exact answer
        rw [acquired] at after ⊢
        exact ⟨t, ⟨after, inOrder, kept.pushesBack.trans steady.roomy⟩, kept, worker, .inr ⟨op, rfl⟩⟩
  | @hit b h p frame _ faithful₂ carries queued time samePts rendered showing =>
      rcases stays with ⟨rfl, rfl, same⟩ | empty
      · let t : Stream TextBackend := { s with cache := b, current := some h }
        have kept : Kept s t := ⟨rfl, rfl, rfl, rfl, rfl, rfl, .refl _⟩
        have acquired : s.acquire g pts = (.frame ⟨pts, frame, .cached h⟩, t) := by
          rw [Stream.acquire, taken]
        obtain ⟨p', frame', shows⟩ := faithful₂.shown h queued rendered
        obtain rfl := Option.some.inj (shows.time.symm.trans time)
        obtain rfl := Option.some.inj (shows.showing.symm.trans showing)
        have draws : s.backend.state.Draws s.geometry p' frame' := steady.inOrder.draws_of_shows shows
        rw [acquired] at after ⊢
        have draws' := draws.congr same rfl (TextBackend.active_congr samePts _)
        have inOrder : t.InOrder := steady.inOrder.carry kept (fun _ _ _ => .inl) (queue carries)
        exact ⟨t, ⟨after, inOrder, steady.roomy⟩, kept, rfl,
          .inl ⟨frame', .cached h, rfl, draws', rfl, unreserved⟩⟩
      · exact absurd queued (carries.not_mem empty h)
  | @waiting b h visible _ carries queued pending =>
      rcases stays with ⟨rfl, rfl, -⟩ | empty
      · have rendered := idle.rendered visible h (carries.queued h queued)
        rw [← carries.rendered h queued nofun, pending] at rendered
        exact absurd rendered nofun
      · exact absurd queued (carries.not_mem empty h)

/-- The frame that is out can be given back. -/
theorem Steady.release (steady : s.Steady) {f : HeldFrame} (holds : s.Holds (some f.hold)) :
    ∃ t, s.release f = .ok t ∧ t.Steady ∧ Kept s t ∧ t.worker = s.worker ∧ t.Holds none := by
  obtain ⟨since, faithful⟩ := steady.faithful
  cases hold : f.hold with
  | cached h =>
      rw [hold] at holds
      obtain ⟨out, free⟩ := holds
      obtain ⟨lost, con⟩ := faithful.cache
      rw [out] at con
      obtain ⟨b, given, conB, leaves, queue⟩ := Cache.Consistent.release (c := s.cache) (h := h) con
      have released : s.release f = .ok { s with current := none, cache := b } := by
        simp [Stream.release, hold, out, given]
      have carries := con.carries_of_leaves conB leaves fun k member => by rwa [queue] at member
      have kept : Kept s { s with current := none, cache := b } := ⟨rfl, rfl, rfl, rfl, rfl, rfl, .refl _⟩
      exact ⟨_, released, ⟨⟨since, faithful.release released⟩, steady.inOrder.carry kept (fun _ _ _ => .inl)
        fun k member => ⟨carries.queued k member, carries.pts k member⟩, steady.roomy⟩, kept, rfl, rfl, free⟩
  | reserved =>
      rw [hold] at holds
      obtain ⟨noFrame, reserved⟩ := holds
      have released : s.release f = .ok { s with reserved := false } := by
        simp [Stream.release, hold, reserved]
      have kept : Kept s { s with reserved := false } := ⟨rfl, rfl, rfl, rfl, rfl, rfl, .refl _⟩
      exact ⟨_, released, ⟨⟨since, faithful.release released⟩, steady.inOrder.carry kept (fun _ _ _ => .inl)
        fun _ member => ⟨member, rfl⟩, steady.roomy⟩, kept, rfl, noFrame, rfl⟩

/-! ## Other calls -/

theorem Steady.settle (steady : s.Steady) (running : s.worker = .running) {out : Option Holding}
    (holds : s.Holds out) :
    s.settle.Steady ∧ s.settle.Holds out ∧
      ((s.settle.worker = .running ∧ s.settle.Idle) ∨ ∃ op, s.settle.worker = .crashed (.overflow op)) := by
  have kept := settle_induction (P := fun t => t.Steady ∧ t.Holds out ∧ t.GoesOn)
    (s := s) ⟨steady, holds, .inl running⟩
    fun t t' before round => ⟨(before.1.round round).1, before.2.1.round round, (before.1.round round).2⟩
  obtain ⟨steady', holds', goesOn⟩ := kept
  obtain ⟨since, faithful⟩ := steady.faithful
  obtain ⟨lost, con⟩ := faithful.cache
  exact ⟨steady', holds', goesOn.imp_left fun running' => ⟨running', settle_idle con running'⟩⟩

theorem Steady.prepare (steady : s.Steady) (pts : Binary64) :
    (s.prepare pts).1 = true ∧ (s.prepare pts).2.Steady := by
  obtain ⟨since, faithful⟩ := steady.faithful
  obtain ⟨ready, inOrder, beyond⟩ := steady.inOrder.readUntil faithful.threaded steady.roomy pts
  have read := faithful.readUntil pts
  obtain ⟨lost, con⟩ := read.cache
  have prepared : s.prepare pts = (true, (s.readUntil pts).2.request pts) := by
    simp [Stream.prepare, ready]
  rw [prepared]
  refine ⟨rfl, ⟨since, read.request pts⟩, inOrder.request con beyond, ?_⟩
  exact (undisturbed_request pts _).pushesBack.trans
    ((undisturbed_readUntil pts s).pushesBack.trans steady.roomy)

theorem Steady.drain (steady : s.Steady) : s.drain.1 = some true ∧ s.drain.2.Steady := by
  obtain ⟨since, faithful⟩ := steady.faithful
  obtain ⟨ps, source⟩ := steady.inOrder.source
  have taken := steady.inOrder.take [] s.lastRead (List.append_nil _).symm
    fun _ _ _ member => absurd member List.not_mem_nil
  have drained : s.drain = (some true, { s with
      source := .ofPackets [], pending := s.pending ++ s.source.packets, drained := true }) := by
    obtain ⟨untilEnd, pastEnd⟩ := Source.untilEnd_ofPackets ps
    rw [drain_of_threaded faithful.threaded steady.roomy (by rw [source]; rfl), source, untilEnd, pastEnd,
      Source.packets_ofPackets]
  have after := faithful.drain
  rw [drained] at after ⊢
  exact ⟨rfl, ⟨since, after⟩, ⟨taken.source, taken.awaits, taken.seen, fun _ => rfl, taken.queued, taken.drew⟩,
    steady.roomy⟩

theorem Steady.text (steady : s.Steady) (pts : Binary64) : (s.text pts).2.Steady := by
  obtain ⟨since, faithful⟩ := steady.faithful
  refine ⟨⟨since, faithful.text pts⟩, ?_, (undisturbed_text pts s).pushesBack.trans steady.roomy⟩
  unfold Stream.text
  split
  · refine steady.inOrder.carry ⟨rfl, rfl, rfl, rfl, rfl, rfl, .refl _⟩ (fun pts' g f call => .inl ?_)
      fun _ member => ⟨member, rfl⟩
    exact (List.mem_cons.1 call).resolve_left nofun
  · exact steady.inOrder

/-- A reset while nothing waits to be decoded. -/
theorem Steady.reset (steady : s.Steady) (idle : s.Idle) :
    ∃ c, s.reset = .ok { s with backend := s.backend.reset, lastRead := none, cache := c, pending := [] } ∧
      Steady { s with backend := s.backend.reset, lastRead := none, cache := c, pending := [] } := by
  obtain ⟨since, faithful⟩ := steady.faithful
  obtain ⟨c, flushed, -, empty⟩ := faithful.flush
  have reset : s.reset =
      .ok { s with backend := s.backend.reset, lastRead := none, cache := c, pending := [] } := by
    rw [Stream.reset, flushed]
    rfl
  obtain ⟨t, reset', faithful', -⟩ := faithful.reset
  rw [reset] at reset'
  obtain rfl := Except.ok.inj reset'
  refine ⟨c, reset, ⟨_, faithful'⟩, ?_, steady.roomy⟩
  have inOrder := steady.inOrder
  refine ⟨inOrder.source, ?_, nofun, inOrder.finished, ?_, ?_⟩
  · have awaits := inOrder.awaits
    rw [idle.decoded] at awaits
    exact awaits.congr ⟨rfl, rfl, rfl⟩
  · intro h member
    rw [show c.queue = [] from empty] at member
    exact absurd member List.not_mem_nil
  · intro pts g f call
    obtain ⟨draws, beyond⟩ := inOrder.drew pts g f ((List.mem_cons.1 call).resolve_left nofun)
    rw [idle.decoded] at beyond
    exact ⟨draws.of_sameEvents ⟨rfl, rfl, rfl⟩, beyond⟩

end Stream
end Subtitles
