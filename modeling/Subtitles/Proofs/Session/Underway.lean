/-
# Proofs.Session.Underway: callers and the worker between each other's critical sections

The worker lets go of the lock while it decodes and while it renders, and callers come in between.
An `Underway` is a stream with what the worker has taken on by then. Callers go on by an `Access`
of theirs each time, the worker by a `Work`; they may come in any order.

`Sound` is the invariant: cache, job and frame out are an `Exchange`, and under a geometry without
pixels nothing queued is rendered, nor will it be by the job at hand. `Sound.access` and `Sound.work`
are the step lemmas, `Reached.sound` the run lemma.
-/
import Subtitles.Proofs.Cache.Exchange
import Subtitles.Proofs.Calls
import Subtitles.Proofs.Geometry
import Subtitles.Proofs.Session.Workers
namespace Subtitles

set_option autoImplicit false

open LoggedBackend (Served)

/-- What the worker has taken on, and finishes without the lock or when it has it again. -/
inductive Task
  | decode (packets : List Packet)
  /-- Render an entry at the geometry at which it was selected. The predecessor's time is kept. -/
  | render (job : Job) (pts : Binary64) (before : Option Binary64) (geometry : Geometry)
  | publish (r : InFlight)

def Task.job? : Task → Option Job
  | .decode _ => none
  | .render job .. => some job
  | .publish r => some r.job

structure Underway (σ : Type) where
  stream : Stream σ
  task : Option Task := none

/-- The side of the cache. -/
def Underway.exchange {σ : Type} (u : Underway σ) : Exchange where
  cache := u.stream.cache
  job := u.task.bind Task.job?
  hit := u.stream.current

/-- The entry of the cached frame that is out, if one is, is rendered. -/
def Stream.Shown {σ : Type} (s : Stream σ) : Prop := ∀ h, s.current = some h → s.cache.isRendered h = true

theorem Stream.shown_of_none {σ : Type} {s : Stream σ} (nothing : s.current = none) : s.Shown := by
  intro h out
  cases nothing.symm.trans out

/-- One stream is the other with the geometry adopted. -/
structure Stream.Adopted {σ : Type} (g : Geometry) (s t : Stream σ) : Prop where
  current : t.current = s.current
  reserved : t.reserved = s.reserved
  backend : t.backend = s.backend
  isVoid : t.geometry.isVoid = g.isVoid
  idle : s.Idle → t.Idle
  shown : s.Shown → t.Shown

variable {σ : Type} [Backend σ]

namespace Underway

/-- What the worker does at once. While a frame rendered on demand is out, it waits for the backend. -/
inductive Work : Underway σ → Underway σ → Prop
  | take {s : Stream σ} : s.worker = .running → s.pending ≠ [] →
      Work ⟨s, none⟩ ⟨{ s with pending := [] }, some (.decode s.pending)⟩
  | decode {s : Stream σ} {ps : List Packet} : s.reserved = false →
      Work ⟨s, some (.decode ps)⟩ ⟨{ s with backend := ps.foldl (fun b p => b.decode p) s.backend }, none⟩
  | select {s : Stream σ} {job : Job} {pts : Binary64} {cache : Cache} : s.worker = .running →
      s.pending = [] → s.nextJob = some (job, pts) → s.cache.begin job = .ok cache →
      Work ⟨s, none⟩
        ⟨{ s with cache }, some (.render job pts (job.predecessor.bind s.cache.pts?) s.geometry)⟩
  | render {s : Stream σ} {job : Job} {pts : Binary64} {before : Option Binary64} {g : Geometry}
      {frame : Frame} {backend : LoggedBackend σ} : s.reserved = false →
      s.backend.render .ahead g pts = (.ok frame, backend) →
      Work ⟨s, some (.render job pts before g)⟩
        ⟨{ s with backend }, some (.publish ⟨job, frame, before.any fun p => s.backend.lastWas p g⟩)⟩
  | publish {s : Stream σ} {r : InFlight} : Work ⟨s, some (.publish r)⟩ ⟨s.finishRender r, none⟩

/-- What callers and the worker reach in any order, from a stream just opened. -/
inductive Reached (start : Stream σ) : Underway σ → Prop
  | start : Reached start ⟨start, none⟩
  | access {u : Underway σ} {t : Stream σ} : Reached start u → u.stream.Access t →
      Reached start { u with stream := t }
  | lookUp {u : Underway σ} (g : Geometry) (pts : Binary64) : Reached start u →
      Reached start { u with stream := (u.stream.lookUp g pts).2 }
  | work {u v : Underway σ} : Reached start u → u.Work v → Reached start v

/-! ## The invariant -/

structure Sound (fresh : σ) (n : Nat) (u : Underway σ) : Prop where
  served : Served fresh u.stream.backend
  turns : Exchange.Reached n u.exchange
  unrendered : u.stream.geometry.isVoid = true →
    (∀ h ∈ u.stream.cache.queue, u.stream.cache.isRendered h = false) ∧
      ∀ job, u.exchange.job = some job → job.entry ∉ u.stream.cache.queue

namespace Sound

variable {fresh : σ} {n : Nat} {u v : Underway σ} {t : Stream σ}

theorem consistent (sound : u.Sound fresh n) : u.stream.cache.Consistent u.exchange.held :=
  sound.turns.sound.consistent

theorem live_current (sound : u.Sound fresh n) {h : Handle} (out : u.stream.current = some h) :
    ∃ e, u.stream.cache.entry? h = some e := by
  refine sound.consistent.live_of_held ?_
  rw [Exchange.held, exchange, out]
  exact List.mem_append_right _ (List.mem_singleton_self h)

/-- Whatever is out lives on, and what is rendered stays so. -/
theorem shown_of_keeps {target : Option Handle} (sound : u.Sound fresh n) (sound' : v.Sound fresh n)
    (shown : u.stream.Shown) (keeps : Arena.Keeps target u.stream.cache.arena v.stream.cache.arena)
    (pending : ∀ k, target = some k → u.stream.cache.isRendered k = false)
    (current : v.stream.current = u.stream.current) : v.stream.Shown := by
  intro h out
  have rendered := shown h (current ▸ out)
  obtain ⟨e, found⟩ := sound.live_current (current ▸ out)
  obtain ⟨f, present⟩ := sound'.live_current out
  have other : target ≠ some h := by
    intro same
    cases rendered.symm.trans (pending h same)
  rw [Cache.isRendered_eq found, Entry.isRendered] at rendered
  rw [Cache.isRendered_eq present, Entry.isRendered, (keeps h e f found present).2 other]
  exact rendered

/-- The same where nothing is rendered. -/
theorem shown_of_kept (sound : u.Sound fresh n) (sound' : v.Sound fresh n) (shown : u.stream.Shown)
    (keeps : Arena.Keeps none u.stream.cache.arena v.stream.cache.arena)
    (current : v.stream.current = u.stream.current) : v.stream.Shown := by
  refine sound.shown_of_keeps sound' shown keeps ?_ current
  rintro k ⟨⟩

/-- The cache is left alone. -/
theorem quiet (sound : u.Sound fresh n) (served : Served fresh t.backend) (cache : t.cache = u.stream.cache)
    (current : t.current = u.stream.current) (geometry : t.geometry = u.stream.geometry) :
    Sound fresh n { u with stream := t } := by
  refine ⟨served, ?_, ?_⟩
  · rw [exchange, cache, current]
    exact sound.turns
  · rw [geometry, cache]
    exact sound.unrendered

/-- With nothing queued any geometry can be adopted. -/
theorem flush (sound : u.Sound fresh n) (served : Served fresh t.backend)
    (flushed : u.stream.cache.flush = .ok t.cache) (current : t.current = u.stream.current) :
    Sound fresh n { u with stream := t } := by
  obtain ⟨b, ended, -, -, empty⟩ := sound.consistent.flush
  obtain rfl := Except.ok.inj (ended.symm.trans flushed)
  refine ⟨served, ?_, fun _ => ?_⟩
  · have emptied : Exchange.Reached n { u.exchange with cache := t.cache } :=
      .turn (t := .flush) sound.turns trivial (by simp only [Exchange.apply, exchange, flushed]; rfl)
    rw [Underway.exchange, current]
    exact emptied
  · simp [empty]

theorem request (sound : u.Sound fresh n) (pts : Binary64) :
    Sound fresh n { u with stream := { u.stream with cache := (u.stream.cache.request pts).2 } } := by
  refine ⟨sound.served, .turn (t := .request pts) sound.turns trivial rfl, fun void => ?_⟩
  obtain ⟨unrendered, apart⟩ := sound.unrendered void
  obtain ⟨con', became⟩ := sound.consistent.request pts
  refine ⟨fun h member => ?_, fun job selected queued => ?_⟩
  · cases rendered : Cache.isRendered (u.stream.cache.request pts).2 h with
    | false => rfl
    | true =>
        obtain ⟨⟨queued, was⟩, -⟩ := sound.consistent.of_rendered_request pts member rendered
        rw [unrendered h queued] at was
        cases was
  · obtain ⟨⟨e, found, -⟩, -⟩ := sound.turns.sound.ready job selected
    obtain ⟨-, -, queue⟩ | ⟨new, -, fresh, queue, -⟩ := became
    · exact apart job selected (queue ▸ queued)
    · have place : job.entry ∈ (u.stream.cache.request pts).2.queue := queued
      rw [queue] at place
      rcases List.mem_append.1 place with old | isNew
      · exact apart job selected old
      · rw [List.mem_singleton.1 isNew] at found
        cases found.symm.trans fresh

/-- The reference of the frame that is out can be given back, and the queue is not touched. -/
theorem given (sound : u.Sound fresh n) {h : Handle} (out : u.stream.current = some h) :
    ∃ b, u.stream.cache.release h = .ok b ∧ b.queue = u.stream.cache.queue ∧
      Cache.Carries none u.stream.cache b := by
  have con : u.stream.cache.Consistent (h :: u.exchange.job.elim [] Job.references) := by
    refine sound.consistent.of_perm ?_
    rw [Exchange.held, exchange, out]
    exact List.perm_append_comm
  obtain ⟨b, released, con', leaves, queue⟩ := con.release
  exact ⟨b, released, queue, con.carries_of_leaves con' leaves fun k member => queue ▸ member⟩

/-- The frame that is out comes back, or an acquire no longer waits. -/
theorem giveBack (sound : u.Sound fresh n) {h : Handle} {b : Cache} (out : u.stream.current = some h)
    (released : u.stream.cache.release h = .ok b) :
    Sound fresh n { u with stream := { u.stream with cache := b, current := none } } := by
  obtain ⟨b', given, queue, carries⟩ := sound.given out
  obtain rfl := Except.ok.inj (given.symm.trans released)
  refine ⟨sound.served, ?_, fun void => ?_⟩
  · exact .turn (t := .giveBack) sound.turns (by rw [Exchange.Permits, exchange, out]; rfl)
      (by simp only [Exchange.apply, exchange, out, released]; rfl)
  · obtain ⟨unrendered, apart⟩ := sound.unrendered void
    refine ⟨fun k member => ?_, fun job selected queued => apart job selected (queue ▸ queued)⟩
    exact (carries.rendered k member (by simp)).trans (unrendered k (carries.queued k member))

theorem resume (sound : u.Sound fresh n) (pts : Binary64) {h : Handle} (out : u.stream.current = some h) :
    Sound fresh n { u with stream := (u.stream.resume pts h).2 } := by
  unfold Stream.resume
  split
  · exact sound
  · split
    · exact sound
    · obtain ⟨b, released, -⟩ := sound.given out
      rw [released]
      exact sound.giveBack out released

/-- A geometry is adopted; a change of it flushes the queue. -/
theorem adopt (sound : u.Sound fresh n) (g : Geometry) :
    ∃ t, u.stream.adopt g = .ok t ∧ Sound fresh n { u with stream := t } ∧ Stream.Adopted g u.stream t := by
  unfold Stream.adopt
  split
  · next same => exact ⟨u.stream, rfl, sound, rfl, rfl, rfl, same.isVoid_eq, id, id⟩
  · obtain ⟨b, flushed, -, leaves, empty⟩ := sound.consistent.flush
    have sound' : Sound fresh n { u with stream := { u.stream with geometry := g, cache := b } } :=
      sound.flush sound.served flushed rfl
    refine ⟨_, ?_, sound', ⟨rfl, rfl, rfl, rfl, fun idle => ?_, fun shown => ?_⟩⟩
    · rw [flushed]
      rfl
    · exact ⟨idle.decoded, fun _ h member => absurd (empty ▸ member) List.not_mem_nil⟩
    · exact sound.shown_of_kept sound' shown leaves.keeps rfl

/-- The entry for `pts` is taken out, if there is one. -/
theorem checkOut (sound : u.Sound fresh n) (free : u.stream.current = none)
    (visible : u.stream.geometry.isVoid = false) (pts : Binary64) :
    ∃ hit b, u.stream.cache.checkOut pts = .ok (hit, b) ∧
      Sound fresh n { u with stream := { u.stream with cache := b, current := hit } } ∧
      Cache.Carries none u.stream.cache b ∧ ∀ h, hit = some h → h ∈ b.queue := by
  obtain ⟨hit, b, checked, con, leaves, queue, found, -⟩ := sound.consistent.checkOut pts
  have suffix : b.queue <:+ u.stream.cache.queue := queue ▸ List.dropWhile_suffix _
  refine ⟨hit, b, checked, ⟨sound.served, ?_, fun void => ?_⟩, ?_, fun h isHit => ?_⟩
  · have noHit : u.exchange.Permits (.lookUp pts) := free
    exact .turn sound.turns noHit (by simp only [Exchange.apply, exchange, checked]; rfl)
  · exact Bool.noConfusion (visible.symm.trans void)
  · exact sound.consistent.carries_of_leaves con leaves fun h member => suffix.subset member
  · exact List.mem_of_head? (found h isHit).1

theorem lookUp (sound : u.Sound fresh n) (g : Geometry) (pts : Binary64) :
    Sound fresh n { u with stream := (u.stream.lookUp g pts).2 } := by
  unfold Stream.lookUp
  split
  · exact sound
  · obtain ⟨t, done, sound', adopted⟩ := sound.adopt g
    rw [done]
    simp only
    split
    · exact sound'
    · next free =>
        split
        · exact sound'
        · next visible =>
            have noFrame : t.current = none := by simp_all
            have pixels : t.geometry.isVoid = false := by simpa [adopted.isVoid] using visible
            obtain ⟨hit, b, checked, sound'', -⟩ := sound'.checkOut noFrame pixels pts
            rw [checked]
            cases hit with
            | none =>
                rw [← noFrame] at sound''
                exact sound''
            | some h => exact sound''.resume pts rfl

theorem demand (sound : u.Sound fresh n) (g : Geometry) (pts : Binary64) :
    Sound fresh n { u with stream := (u.stream.renderOnDemand g pts).2 } := by
  have served := sound.served.render .demand g pts
  unfold Stream.renderOnDemand
  split
  · exact sound
  · cases answer : u.stream.backend.render .demand g pts with
    | mk frame backend =>
        rw [answer] at served
        cases frame with
        | ok frame => exact sound.quiet served rfl rfl rfl
        | error f => exact sound.quiet served rfl rfl rfl

theorem reset (sound : u.Sound fresh n) (reset : u.stream.reset = .ok t) :
    Sound fresh n { u with stream := t } := by
  obtain ⟨b, flushed, rfl⟩ := Stream.reset_cases reset
  exact sound.flush (.reset sound.served) flushed rfl

theorem release (sound : u.Sound fresh n) {f : HeldFrame} (released : u.stream.release f = .ok t) :
    Sound fresh n { u with stream := t } := by
  obtain ⟨h, b, -, out, given, rfl⟩ | ⟨-, -, rfl⟩ := Stream.release_cases released
  · exact sound.giveBack out given
  · exact sound.quiet sound.served rfl rfl rfl

/-- An access keeps the invariant. -/
theorem access (sound : u.Sound fresh n) (access : u.stream.Access t) :
    Sound fresh n { u with stream := t } := by
  cases access with
  | packets source lastRead drained ps =>
      unfold Stream.enter
      split
      · exact sound.quiet sound.served rfl rfl rfl
      · exact sound.quiet (sound.served.decodes ps) rfl rfl rfl
  | request pts =>
      unfold Stream.request
      split
      · exact sound.request pts
      · exact sound
  | text pts =>
      unfold Stream.text
      split
      · exact sound.quiet (.text pts sound.served) rfl rfl rfl
      · exact sound
  | select on => exact sound.quiet (.select on sound.served) rfl rfl rfl
  | control command => exact sound.quiet (.control command sound.served) rfl rfl rfl
  | video params =>
      unfold Stream.noteVideo
      split
      · exact sound
      · exact sound.quiet (.control (.video params) sound.served) rfl rfl rfl
  | reset reset => exact sound.reset reset
  | resume pts out => exact sound.resume pts out
  | demand g pts => exact sound.demand g pts
  | release released => exact sound.release released

theorem accesses {s : Stream σ} (sound : Sound fresh n ⟨s, none⟩) (accesses : s.Accesses t) :
    Sound fresh n ⟨t, none⟩ := by
  induction accesses with
  | refl => exact sound
  | tail _ access ih => exact ih.access access

/-- An action of a caller is an access or a few. -/
theorem turn {s : Session σ} (sound : Sound fresh n ⟨s.stream, none⟩) {a : Action}
    (alone : ∀ pts g, a ≠ .overtake pts g) : Sound fresh n ⟨s.turn a, none⟩ := by
  cases a with
  | acquire g pts => exact (sound.lookUp g pts).accesses (Stream.accesses_acquire g pts s.stream)
  | _ => exact sound.accesses (s.accesses_turn alone fun _ _ same => by cases same)

/-- The entry of a job still waits for its render, wherever it is by now. -/
theorem publish {s : Stream σ} {r : InFlight} (sound : Sound fresh n ⟨s, some (.publish r)⟩) :
    ∃ b, s.finishRender r = { s with cache := b } ∧ Sound fresh n ⟨{ s with cache := b }, none⟩ ∧
      Arena.Keeps (some r.job.entry) s.cache.arena b.arena ∧ s.cache.isRendered r.job.entry = false := by
  have ready : s.cache.Ready r.job := sound.turns.sound.ready r.job rfl
  obtain ⟨⟨e, found, pending⟩, predecessor⟩ := ready
  have con : s.cache.Consistent (r.job.references ++ s.current.toList) := sound.consistent
  obtain ⟨b, finished, con', queue, keeps, -⟩ :=
    con.finish ⟨e, found, pending⟩ predecessor (r.follows && r.frame.isUnchanged) r.frame
  have became : s.finishRender r = { s with cache := b } := by rw [Stream.finishRender, finished]
  have waits : s.cache.isRendered r.job.entry = false := (Cache.isRendered_eq found).trans pending
  refine ⟨b, became, ⟨sound.served, ?_, fun void => ?_⟩, keeps, waits⟩
  · exact .turn (t := .publish (r.follows && r.frame.isUnchanged) r.frame) sound.turns rfl
      (by simp only [Exchange.apply, exchange, Option.bind_some, Task.job?, finished]; rfl)
  · obtain ⟨unrendered, apart⟩ := sound.unrendered void
    have notQueued : r.job.entry ∉ s.cache.queue := apart r.job rfl
    have carries := con.carries con' keeps (fun k same => Option.some.inj same ▸ waits) fun _ member => queue ▸ member
    refine ⟨fun h member => ?_, fun job selected => ?_⟩
    · have queued : h ∈ s.cache.queue := carries.queued h member
      rw [carries.rendered h member, unrendered h queued]
      rintro ⟨⟩
      exact notQueued queued
    · cases selected

/-- A section of the worker keeps the invariant. -/
theorem work (sound : u.Sound fresh n) (work : u.Work v) : v.Sound fresh n := by
  cases work with
  | take running waits => exact ⟨sound.served, sound.turns, sound.unrendered⟩
  | decode free => exact ⟨sound.served.decodes _, sound.turns, sound.unrendered⟩
  | select running decoded next begun =>
      obtain ⟨visible, first, -⟩ := Stream.nextJob_spec next
      refine ⟨sound.served, ?_, fun void => Bool.noConfusion (visible.symm.trans void)⟩
      refine .turn (t := .select) sound.turns rfl ?_
      have search : Cache.firstPending _ = _ := first
      have started : Cache.begin _ _ = _ := begun
      simp only [Exchange.apply, exchange, search, started]
      rfl
  | @render s job pts before g frame backend free answer =>
      have served := sound.served.render .ahead g pts
      rw [answer] at served
      exact ⟨served, sound.turns, sound.unrendered⟩
  | publish =>
      obtain ⟨b, became, sound', -⟩ := sound.publish
      rwa [became]

end Sound

variable {fresh : σ} {u v : Underway σ}

/-- The worker goes on, and what is out stays out. -/
theorem frame_work (work : u.Work v) {n : Nat} (sound : u.Sound fresh n) :
    v.stream.worker = u.stream.worker ∧ v.stream.current = u.stream.current ∧
      v.stream.reserved = u.stream.reserved := by
  cases work with
  | publish =>
      obtain ⟨b, became, -⟩ := sound.publish
      rw [became]
      exact ⟨rfl, rfl, rfl⟩
  | _ => exact ⟨rfl, rfl, rfl⟩

/-! ## What is out -/

namespace Sound

variable {n : Nat} {t : Stream σ}

theorem shown_access (sound : u.Sound fresh n) (shown : u.stream.Shown) (access : u.stream.Access t) : t.Shown := by
  have sound' := sound.access access
  cases access with
  | packets source lastRead drained ps =>
      unfold Stream.enter
      split <;> exact shown
  | request pts =>
      unfold Stream.request
      split
      · have keeps := Arena.keeps_request sound.consistent pts
        exact sound.shown_of_kept (sound.request pts) shown keeps rfl
      · exact shown
  | text pts =>
      unfold Stream.text
      split <;> exact shown
  | select on => exact shown
  | control command => exact shown
  | video params =>
      unfold Stream.noteVideo
      split <;> exact shown
  | reset reset =>
      obtain ⟨b, done, -, leaves, -⟩ := sound.consistent.flush
      obtain ⟨c, flushed, rfl⟩ := Stream.reset_cases reset
      obtain rfl := Except.ok.inj (done.symm.trans flushed)
      exact sound.shown_of_kept sound' shown leaves.keeps rfl
  | resume pts out =>
      unfold Stream.resume
      split
      · exact shown
      · split
        · exact shown
        · split <;> exact Stream.shown_of_none rfl
  | demand g pts =>
      unfold Stream.renderOnDemand
      split
      · exact shown
      · split
        split <;> exact shown
  | @release f _ released =>
      obtain ⟨h, b, -, -, -, rfl⟩ | ⟨-, -, rfl⟩ := Stream.release_cases released
      · exact Stream.shown_of_none rfl
      · exact shown

theorem shown_work (sound : u.Sound fresh n) (shown : u.stream.Shown) (work : u.Work v) : v.stream.Shown := by
  have sound' := sound.work work
  have current := (frame_work work sound).2.1
  cases work with
  | take => exact shown
  | decode => exact shown
  | render => exact shown
  | @select s job pts cache running decoded next begun =>
      obtain ⟨-, first, -⟩ := Stream.nextJob_spec next
      obtain ⟨queued, -, predecessor⟩ := Cache.firstPending_spec first
      have con : s.cache.Consistent _ := sound.consistent
      obtain ⟨b, started, -, leaves, -⟩ :=
        con.begin (con.live_of_queued queued) fun p same => con.live_of_queued (predecessor p same).1
      obtain rfl := Except.ok.inj (started.symm.trans begun)
      exact sound.shown_of_kept sound' shown leaves.keeps rfl
  | publish =>
      obtain ⟨b, became, sound'', keeps, waits⟩ := sound.publish
      rw [became]
      exact sound.shown_of_keeps sound'' shown keeps (fun k same => Option.some.inj same ▸ waits) rfl

theorem shown_accesses (sound : u.Sound fresh n) (shown : u.stream.Shown) (accesses : u.stream.Accesses t) :
    t.Shown := by
  have kept : Sound fresh n { u with stream := t } ∧ t.Shown := by
    induction accesses with
    | refl => exact ⟨sound, shown⟩
    | tail _ access ih => exact ⟨ih.1.access access, ih.1.shown_access ih.2 access⟩
  exact kept.2

end Sound

/-! ## Runs -/

theorem Reached.accesses {start t : Stream σ} (reached : Reached start u) (accesses : u.stream.Accesses t) :
    Reached start { u with stream := t } := by
  induction accesses with
  | refl => exact reached
  | tail _ access ih => exact ih.access access

theorem Reached.sound {codec : Codec} {source : Source} {options : Options}
    (reached : Reached (.ofBackend codec source options fresh) u) :
    u.Sound fresh (options.renderAhead.toNat + Options.spareEntries) := by
  induction reached with
  | start => exact ⟨.start, .start, fun _ => ⟨nofun, nofun⟩⟩
  | access _ access ih => exact ih.access access
  | lookUp g pts _ ih => exact ih.lookUp g pts
  | work _ work ih => exact ih.work work

theorem Reached.worker {codec : Codec} {source : Source} {options : Options}
    (reached : Reached (.ofBackend codec source options fresh) u) :
    u.stream.worker = (Stream.ofBackend codec source options fresh).worker := by
  induction reached with
  | start => rfl
  | access _ access ih => exact (Stream.worker_access access).trans ih
  | lookUp g pts _ ih => exact (Stream.worker_lookUp g pts _).trans ih
  | work before work ih => exact (frame_work work before.sound).1.trans ih

end Underway

end Subtitles
