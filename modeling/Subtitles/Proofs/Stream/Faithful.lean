/-
# Proofs.Stream.Faithful: cached frames are those the worker got

A stream is `Faithful` since some calls of its log when every queued entry that is rendered
shows what the worker got for it after those calls, at the present geometry. Sharing is decided
from the render call before, whoever made it; so the invariant also says that where that call
was for the time of a queued rendered entry, its frame is what the entry shows.

A call other than a render keeps it, and so does every operation of the cache, because entries
that stay queued stay as they are (`Faithful.call`, `Faithful.carry`). A render on demand keeps
it if no entry is queued for its time (`Faithful.demand`), and a flush makes it hold since any
call at all (`Faithful.of_queue_nil`).
-/
import Subtitles.Proofs.Calls
import Subtitles.Proofs.Stream.Rounds
import Subtitles.Stream.Checkout
namespace Subtitles

set_option autoImplicit false

namespace Stream

open LoggedBackend (Served SoundChanges)

variable {σ : Type} [Backend σ]

/-- An entry for `pts` shows a frame that the worker got for it after the calls in `since`. -/
structure Shows (since : List Call) (b : List Call × Option RenderCall) (c : Cache) (g : Geometry)
    (h : Handle) (pts : Binary64) (frame : Frame) : Prop where
  visible : g.isVoid = false
  time : c.pts? h = some pts
  showing : c.frame? h = some frame
  ahead : ∃ got, RenderedAhead since b.1 pts g got ∧ got.SameContent frame
  latest : ∀ r, b.2 = some r → r.Same ⟨pts, g⟩ →
    ∃ before, lastFrame? b.1 = some before ∧ before.SameContent frame

/-- The entries that a threaded stream has rendered ahead show what the worker got for them. -/
structure Faithful (fresh : σ) (since : List Call) (s : Stream σ) : Prop where
  threaded : s.threaded = true
  served : Served fresh s.backend
  log : since <:+ s.backend.calls
  /-- Beside the frame that is out, a worker that crashed may hold references for ever. -/
  cache : ∃ lost, s.cache.Consistent (s.current.toList ++ lost)
  shown : ∀ h ∈ s.cache.queue, s.cache.isRendered h = true →
    ∃ pts frame, Shows since (s.backend.calls, s.backend.latest) s.cache s.geometry h pts frame

variable {fresh : σ} {since : List Call} {s : Stream σ}

namespace Faithful

theorem of_queue_nil {since' : List Call} (threaded : s.threaded = true)
    (served : Served fresh s.backend) (log : since' <:+ s.backend.calls)
    (cache : ∃ lost, s.cache.Consistent (s.current.toList ++ lost)) (empty : s.cache.queue = []) :
    s.Faithful fresh since' :=
  ⟨threaded, served, log, cache, fun h member => by rw [empty] at member; exact absurd member List.not_mem_nil⟩

/-- Another cache, where what is queued is as it was. -/
theorem carry {b : Cache} (faithful : s.Faithful fresh since) (carries : Cache.Carries none s.cache b)
    (current : Option Handle) (cache : ∃ lost, b.Consistent (current.toList ++ lost)) :
    { s with cache := b, current }.Faithful fresh since := by
  refine ⟨faithful.threaded, faithful.served, faithful.log, cache, ?_⟩
  intro h member rendered
  have rendered' : s.cache.isRendered h = true := (carries.rendered h member nofun).symm.trans rendered
  obtain ⟨pts, frame, shows⟩ := faithful.shown h (carries.queued h member) rendered'
  exact ⟨pts, frame, shows.visible, (carries.pts h member).trans shows.time,
    (carries.frame h member nofun).trans shows.showing, shows.ahead, shows.latest⟩

/-- A call to the backend that renders nothing. -/
theorem call {b : LoggedBackend σ} {c : Call} (faithful : s.Faithful fresh since)
    (served : Served fresh b) (logged : b.calls = c :: s.backend.calls) (silent : c.frame? = none)
    (latest : b.latest = s.backend.latest) : { s with backend := b }.Faithful fresh since := by
  have sameLast : lastFrame? b.calls = lastFrame? s.backend.calls := by
    rw [logged, lastFrame?, List.findSome?_cons, silent]
    rfl
  refine ⟨faithful.threaded, served, ?_, faithful.cache, ?_⟩
  · rw [logged]
    exact faithful.log.trans (List.suffix_cons _ _)
  · intro h member rendered
    obtain ⟨pts, frame, shows⟩ := faithful.shown h member rendered
    obtain ⟨got, ahead, same⟩ := shows.ahead
    refine ⟨pts, frame, shows.visible, shows.time, shows.showing, ⟨got, ?_, same⟩, ?_⟩
    · rw [show b.calls = _ from logged]
      exact ahead.cons c
    · intro r last both
      rw [show lastFrame? b.calls = _ from sameLast]
      exact shows.latest r (latest.symm.trans last) both

theorem decode (faithful : s.Faithful fresh since) (p : Packet) :
    { s with backend := s.backend.decode p }.Faithful fresh since :=
  faithful.call (.decode p faithful.served) rfl rfl rfl

/-- A render on demand for a time that no rendered entry is queued for. -/
theorem demand (faithful : s.Faithful fresh since) (g : Geometry) (pts : Binary64)
    (apart : ∀ h ∈ s.cache.queue, s.cache.isRendered h = true → ∀ p, s.cache.pts? h = some p →
      ¬ p.Same pts) :
    { s with backend := (s.backend.render .demand g pts).2 }.Faithful fresh since := by
  have served := Served.render .demand g pts faithful.served
  obtain ⟨frame, -, answer⟩ | ⟨f, -, answer⟩ := s.backend.render_cases .demand g pts
  · rw [answer] at served ⊢
    refine ⟨faithful.threaded, served, faithful.log.trans (List.suffix_cons _ _), faithful.cache, ?_⟩
    intro h member rendered
    obtain ⟨time, shown, shows⟩ := faithful.shown h member rendered
    obtain ⟨got, ahead, same⟩ := shows.ahead
    refine ⟨time, shown, shows.visible, shows.time, shows.showing, ⟨got, ahead.cons _, same⟩, ?_⟩
    intro r last both
    obtain rfl := Option.some.inj last
    exact absurd both.1.symm (apart h member rendered time shows.time)
  · rw [answer] at served ⊢
    exact ⟨faithful.threaded, served, faithful.log, faithful.cache, faithful.shown⟩

/-- The cache is consistent, and a flush leaves it so with nothing queued. -/
theorem flush (faithful : s.Faithful fresh since) :
    ∃ b, s.cache.flush = .ok b ∧ (∃ lost, b.Consistent (s.current.toList ++ lost)) ∧ b.queue = [] := by
  obtain ⟨lost, con⟩ := faithful.cache
  obtain ⟨b, flushed, con', -, empty⟩ := con.flush
  exact ⟨b, flushed, ⟨lost, con'⟩, empty⟩

/-- A requested time is queued behind the others, and not rendered yet. -/
theorem request (faithful : s.Faithful fresh since) (pts : Binary64) :
    (s.request pts).Faithful fresh since := by
  unfold Stream.request
  split
  · obtain ⟨lost, con⟩ := faithful.cache
    obtain ⟨con', became⟩ := con.request pts
    refine ⟨faithful.threaded, faithful.served, faithful.log, ⟨lost, con'⟩, ?_⟩
    intro h member rendered
    obtain ⟨old, time, frame⟩ := con.of_rendered_request pts member rendered
    obtain ⟨pts', frame', shows⟩ := faithful.shown h old.1 old.2
    exact ⟨pts', frame', shows.visible, time.trans shows.time, frame.trans shows.showing, shows.ahead,
      shows.latest⟩
  · exact faithful

/-! ## The worker -/

theorem decodePending (faithful : s.Faithful fresh since) : s.decodePending.Faithful fresh since := by
  unfold Stream.decodePending
  have decoded : ∀ (ps : List Packet) (s : Stream σ), s.Faithful fresh since →
      { s with backend := ps.foldl (fun b p => b.decode p) s.backend }.Faithful fresh since := by
    intro ps
    induction ps with
    | nil => exact fun s faithful => faithful
    | cons p ps ih => exact fun s faithful => ih _ (faithful.decode p)
  have faithful' := decoded s.pending s faithful
  exact ⟨faithful'.threaded, faithful'.served, faithful'.log, faithful'.cache, faithful'.shown⟩

end Faithful

/-- What the entry of a job is given shows what the worker got: where it is shared, the render call
before was the predecessor's, and was answered with what the predecessor shows. -/
theorem Faithful.shown_of_job {job : Job} {pts : Binary64} {frame : Frame}
    (faithful : s.Faithful fresh since) (sound : SoundChanges fresh)
    (first : s.cache.firstPending = some job)
    (answer : (s.backend.render .ahead s.geometry pts).1 = .ok frame) :
    ∃ shown, job.shown s.cache (s.follows job && frame.isUnchanged) frame = some shown ∧
      frame.SameContent shown := by
  obtain ⟨-, -, predecessor⟩ := Cache.firstPending_spec first
  unfold Job.shown
  split
  · next p before shares =>
      obtain ⟨follows, unchanged⟩ := (Bool.and_eq_true _ _).mp shares
      obtain ⟨member, rendered⟩ := predecessor p before
      obtain ⟨time, shown, was⟩ := faithful.shown p member rendered
      obtain ⟨r, last, same⟩ : ∃ r, s.backend.latest = some r ∧ r.Same ⟨time, s.geometry⟩ := by
        simpa [Stream.follows, before, was.time, LoggedBackend.lastWas, Option.any_eq_true] using follows
      obtain ⟨got, logged, content⟩ := was.latest r last same
      exact ⟨shown, was.showing,
        (sound _ faithful.served _ _ _ _ answer unchanged got logged).trans content⟩
  · exact ⟨frame, rfl, rfl, rfl⟩

/-- A job of the worker. The frame it gets is what its entry shows. -/
theorem Faithful.carryOut {job : Job} {pts : Binary64} (faithful : s.Faithful fresh since)
    (sound : SoundChanges fresh) (next : s.nextJob = some (job, pts)) :
    (s.carryOut job pts).Faithful fresh since := by
  obtain ⟨visible, first, time⟩ := nextJob_spec next
  obtain ⟨queued, -, -⟩ := Cache.firstPending_spec first
  obtain ⟨lost, con⟩ := faithful.cache
  have served := Served.render .ahead s.geometry pts faithful.served
  obtain ⟨frame, d, answer, became, conD, -, carries, -, shown⟩ |
    ⟨f, b, answer, became, conB, -, carries⟩ := carryOut_cases con first pts
  · obtain ⟨shows, given, content⟩ := faithful.shown_of_job sound first (congrArg Prod.fst answer)
    rw [given] at shown
    rw [became]
    rw [LoggedBackend.render_of_ok answer] at served ⊢
    refine ⟨faithful.threaded, served, faithful.log.trans (List.suffix_cons _ _), ⟨lost, conD⟩, ?_⟩
    intro k member rendered
    by_cases same : job.entry = k
    · subst same
      refine ⟨pts, shows, visible, (carries.pts _ member).trans time, shown,
        ⟨frame, ⟨[], _, rfl, faithful.log⟩, content⟩, fun _ _ _ => ⟨frame, rfl, content⟩⟩
    · have other : some job.entry ≠ some k := fun h => same (Option.some.inj h)
      obtain ⟨p, old, was⟩ := faithful.shown k (carries.queued k member)
        ((carries.rendered k member other).symm.trans rendered)
      obtain ⟨got, ahead, gotOld⟩ := was.ahead
      refine ⟨p, old, visible, (carries.pts k member).trans was.time,
        (carries.frame k member other).trans was.showing, ⟨got, ahead.cons _, gotOld⟩, fun r last both => ?_⟩
      obtain rfl := Option.some.inj last
      exact absurd both.1 (con.apart queued (carries.queued k member) same time was.time)
  · have reordered : (job.references ++ (s.current.toList ++ lost)).Perm
        (s.current.toList ++ (job.references ++ lost)) := by
      rw [← List.append_assoc, ← List.append_assoc]
      exact List.perm_append_comm.append_right _
    have carried := faithful.carry carries s.current ⟨job.references ++ lost, conB.of_perm reordered⟩
    rw [became]
    rw [LoggedBackend.render_of_error answer] at served ⊢
    exact ⟨rfl, served, carried.log, carried.cache, carried.shown⟩

theorem Faithful.round {s' : Stream σ} (faithful : s.Faithful fresh since) (sound : SoundChanges fresh)
    (round : Round s s') : s'.Faithful fresh since := by
  cases round with
  | decode running waits => exact faithful.decodePending
  | render running decoded next => exact faithful.carryOut sound next

theorem Faithful.settle (faithful : s.Faithful fresh since) (sound : SoundChanges fresh) :
    s.settle.Faithful fresh since :=
  settle_induction faithful fun _ _ faithful round => faithful.round sound round

/-! ## What a caller does, apart from taking frames out -/

namespace Faithful

/-- Only the worker, the backend, the cache, the frame that is out and the geometry matter. -/
theorem of_same {s' : Stream σ} (faithful : s.Faithful fresh since) (worker : s'.worker = s.worker)
    (backend : s'.backend = s.backend) (cache : s'.cache = s.cache) (current : s'.current = s.current)
    (geometry : s'.geometry = s.geometry) : s'.Faithful fresh since := by
  obtain ⟨threaded, served, log, con, shown⟩ := faithful
  refine ⟨?_, backend ▸ served, backend ▸ log, by rw [cache, current]; exact con, ?_⟩
  · unfold Stream.threaded at threaded ⊢
    rw [worker]
    exact threaded
  · rw [cache, backend, geometry]
    exact shown

theorem deliver (faithful : s.Faithful fresh since) (p : Packet) :
    (s.deliver p).Faithful fresh since := by
  unfold Stream.deliver
  rw [faithful.threaded]
  exact faithful.of_same rfl rfl rfl rfl rfl

theorem offer (faithful : s.Faithful fresh since) (p : Packet) : (s.offer p).Faithful fresh since := by
  unfold Stream.offer
  split
  · exact faithful
  · exact faithful.deliver p

theorem readUntil (faithful : s.Faithful fresh since) (pts : Binary64) :
    (s.readUntil pts).2.Faithful fresh since := by
  fun_induction Stream.readUntil pts s with
  | case1 s done => exact faithful
  | case2 s unread p source polled s' beyond =>
      exact Faithful.deliver (s := { s with source, lastRead := p.pts }) (faithful.of_same rfl rfl rfl rfl rfl) p
  | case3 s unread p source polled s' within ih =>
      exact ih (Faithful.deliver (s := { s with source, lastRead := p.pts })
        (faithful.of_same rfl rfl rfl rfl rfl) p)
  | case4 s unread source polled => exact faithful.of_same rfl rfl rfl rfl rfl
  | case5 s unread source polled => exact faithful.of_same rfl rfl rfl rfl rfl
  | case6 s unread source polled => exact faithful.of_same rfl rfl rfl rfl rfl

theorem prepare (faithful : s.Faithful fresh since) (pts : Binary64) :
    (s.prepare pts).2.Faithful fresh since := by
  have read := faithful.readUntil pts
  show (if (s.readUntil pts).1 then (s.readUntil pts).2.request pts else (s.readUntil pts).2).Faithful _ _
  split
  · exact read.request pts
  · exact read

theorem drain (faithful : s.Faithful fresh since) : s.drain.2.Faithful fresh since := by
  have delivered : ∀ (ps : List Packet) (s : Stream σ), s.Faithful fresh since →
      (ps.foldl (fun s p => s.deliver p) s).Faithful fresh since := by
    intro ps
    induction ps with
    | nil => exact fun s faithful => faithful
    | cons p ps ih => exact fun s faithful => ih _ (faithful.deliver p)
  unfold Stream.drain
  split
  · exact faithful
  · split
    · exact faithful
    · refine (delivered s.source.untilEnd _ ?_).of_same rfl rfl rfl rfl rfl
      exact faithful.of_same rfl rfl rfl rfl rfl

theorem text (faithful : s.Faithful fresh since) (pts : Binary64) : (s.text pts).2.Faithful fresh since := by
  unfold Stream.text
  split
  · exact faithful.call (.text pts faithful.served) rfl rfl rfl
  · exact faithful

theorem select (faithful : s.Faithful fresh since) (on : Bool) : (s.select on).Faithful fresh since :=
  faithful.call (.select on faithful.served) rfl rfl rfl

theorem control (faithful : s.Faithful fresh since) (c : Command) :
    (s.control c).2.Faithful fresh since :=
  faithful.call (.control c faithful.served) rfl rfl rfl

theorem noteVideo (faithful : s.Faithful fresh since) (params : VideoFormat) :
    (s.noteVideo params).Faithful fresh since := by
  unfold Stream.noteVideo
  split
  · exact faithful
  · exact Faithful.control (s := { s with lastVideo := some params })
      (faithful.of_same rfl rfl rfl rfl rfl) (.video params)

/-- Nothing stays queued over a reset. -/
theorem reset (faithful : s.Faithful fresh since) :
    ∃ s', s.reset = .ok s' ∧ s'.Faithful fresh s'.backend.calls ∧ s.backend.calls <:+ s'.backend.calls := by
  obtain ⟨b, flushed, con, empty⟩ := faithful.flush
  let after : Stream σ := { s with backend := s.backend.reset, lastRead := none, cache := b, pending := [] }
  refine ⟨after, ?_, ?_, List.suffix_cons Call.reset _⟩
  · unfold Stream.reset
    rw [flushed]
    rfl
  · exact of_queue_nil (s := after) faithful.threaded (.reset faithful.served) (List.suffix_refl _) con empty

end Faithful

end Stream
end Subtitles
