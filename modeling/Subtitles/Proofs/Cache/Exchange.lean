/-
# Proofs.Cache.Exchange: a worker and a consumer take turns

The worker selects a job and publishes its render later; the consumer requests, looks up, gives
back and flushes. Each of these is one critical section, and they may come in any order: any
number of the consumer's lie between a selection and its publication. An `Exchange` is the cache
with what both sides keep in between.

`Sound` is the invariant. The job of the worker stays ready (`Cache.Ready.keep`), since its
references keep both entries, whatever leaves the queue. And while its entry is queued it is the
first that waits, so its render moves the cut between what is rendered and what is not by one
(`Sound.publish`). `Exchange.Sound.turn` is the step lemma, `Exchange.Reached.sound` the run lemma.
-/
import Subtitles.Proofs.Cache.Progress
namespace Subtitles

set_option autoImplicit false

structure Exchange where
  cache : Cache
  /-- What the worker has selected and not published yet. -/
  job : Option Job := none
  /-- What the consumer has looked up and not given back yet. -/
  hit : Option Handle := none

/-- One critical section. -/
inductive Turn
  | select
  | publish (share : Bool) (frame : Frame)
  | request (pts : Binary64)
  | lookUp (pts : Binary64)
  | giveBack
  | flush

/-- Where a job can be published: its entry waits for its render, its predecessor has one. -/
def Cache.Ready (c : Cache) (job : Job) : Prop :=
  (∃ e, c.entry? job.entry = some e ∧ e.isRendered = false) ∧
    ∀ p, job.predecessor = some p → c.isRendered p = true

namespace Exchange

def opened (n : Nat) : Exchange := { cache := .ofCapacity n }

/-- The references of both sides. -/
def held (x : Exchange) : List Handle := x.job.elim [] Job.references ++ x.hit.toList

/-- The worker has one job at a time, the consumer one hit. -/
def Permits (x : Exchange) : Turn → Prop
  | .select => x.job = none
  | .publish _ _ => x.job.isSome
  | .lookUp _ => x.hit = none
  | .giveBack => x.hit.isSome
  | .request _ | .flush => True

def apply (x : Exchange) : Turn → Except Fault Exchange
  | .select =>
    match x.cache.firstPending with
    | none => .ok x
    | some job => (x.cache.begin job).map ({ x with cache := ·, job := some job })
  | .publish share frame =>
    match x.job with
    | none => .ok x
    | some job => (x.cache.finish job share frame).map ({ x with cache := ·, job := none })
  | .request pts => .ok { x with cache := (x.cache.request pts).2 }
  | .lookUp pts => (x.cache.checkOut pts).map fun (hit, cache) => { x with cache, hit }
  | .giveBack =>
    match x.hit with
    | none => .ok x
    | some h => (x.cache.release h).map ({ x with cache := ·, hit := none })
  | .flush => x.cache.flush.map ({ x with cache := · })

/-- The exchanges that permitted turns reach, in any order. -/
inductive Reached (n : Nat) : Exchange → Prop
  | start : Reached n (.opened n)
  | turn {x x' : Exchange} {t : Turn} : Reached n x → x.Permits t → x.apply t = .ok x' → Reached n x'

end Exchange

/-! ## Keeping a job ready -/

namespace Cache

variable {c b : Cache} {held : List Handle} {job : Job}

/-- A held entry keeps its state of rendering. -/
theorem isRendered_keep {h : Handle} {e f : Entry} (keeps : Arena.Keeps none c.arena b.arena)
    (found : c.entry? h = some e) (present : b.entry? h = some f) : f.isRendered = e.isRendered := by
  obtain ⟨-, storage⟩ := keeps h e f found present
  rw [Entry.isRendered, Entry.isRendered, storage (by simp)]

theorem Ready.keep (ready : c.Ready job) (keeps : Arena.Keeps none c.arena b.arena)
    (con : b.Consistent held) (keepsHold : ∀ h ∈ job.references, h ∈ held) : b.Ready job := by
  obtain ⟨⟨e, found, pending⟩, predecessor⟩ := ready
  constructor
  · obtain ⟨f, present⟩ := con.live_of_held (keepsHold job.entry (by simp [Job.references]))
    exact ⟨f, present, (isRendered_keep keeps found present).trans pending⟩
  · intro p isPredecessor
    have rendered := predecessor p isPredecessor
    obtain ⟨o, there, done⟩ : ∃ o, c.entry? p = some o ∧ o.isRendered = true := by
      simpa [isRendered, Option.any_eq_true] using rendered
    obtain ⟨f, present⟩ := con.live_of_held (keepsHold p (by simp [Job.references, isPredecessor]))
    rw [isRendered_eq present, isRendered_keep keeps there present, done]

end Cache

/-! ## One turn -/

namespace Exchange

structure Sound (x : Exchange) : Prop where
  consistent : x.cache.Consistent x.held
  ready : ∀ job, x.job = some job → x.cache.Ready job
  /-- The queue is rendered up to some point. A job whose entry is still queued is for that point. -/
  ordered : ∃ done waiting, x.cache.RenderedUpTo done waiting ∧
    ∀ job, x.job = some job → job.entry ∈ waiting → waiting.head? = some job.entry

namespace Sound

variable {x : Exchange}

theorem opened (n : Nat) : (Exchange.opened n).Sound where
  consistent := .ofCapacity n
  ready := by rintro _ ⟨⟩
  ordered := ⟨[], [], ⟨rfl, by simp, by simp⟩, by simp⟩

/-- A turn of the consumer that at most drops entries from the front of the queue. -/
theorem drop {b : Cache} {hit : Option Handle} (sound : x.Sound)
    (con : b.Consistent ({ x with cache := b, hit } : Exchange).held)
    (leaves : x.cache.arena.Leaves b.arena) (suffix : b.queue <:+ x.cache.queue) :
    ({ x with cache := b, hit } : Exchange).Sound := by
  refine ⟨con, ?_, ?_⟩
  · intro job selected
    refine (sound.ready job selected).keep leaves.keeps con ?_
    intro h member
    have selected' : x.job = some job := selected
    exact List.mem_append_left _ (by simpa [selected'] using member)
  · obtain ⟨done, waiting, upTo, first⟩ := sound.ordered
    have carries := sound.consistent.carries_of_leaves con leaves fun _ member => suffix.subset member
    obtain ⟨done', waiting', upTo', -, left⟩ := upTo.of_suffix carries suffix
    refine ⟨done', waiting', upTo', ?_⟩
    intro job selected queued
    have atHead := first job selected (left.subset queued)
    have distinct := sound.consistent.nodup_queue
    rw [upTo.queue, List.nodup_append] at distinct
    cases waiting with
    | nil => exact absurd atHead nofun
    | cons h rest =>
        obtain rfl := Option.some.inj atHead
        -- What is left and still has the head has lost nothing.
        rcases List.suffix_cons_iff.1 left with all | later
        · rw [all, List.head?_cons]
        · exact absurd (later.subset queued) (List.nodup_cons.1 distinct.2.1).1

theorem request (sound : x.Sound) (pts : Binary64) :
    ({ x with cache := (x.cache.request pts).2 } : Exchange).Sound := by
  obtain ⟨con, -⟩ := sound.consistent.request pts
  refine ⟨con, ?_, ?_⟩
  · intro job selected
    refine (sound.ready job selected).keep (Arena.keeps_request sound.consistent pts) con ?_
    intro h member
    have selected' : x.job = some job := selected
    exact List.mem_append_left _ (by simpa [selected'] using member)
  · obtain ⟨done, waiting, upTo, first⟩ := sound.ordered
    obtain ⟨new, upTo', fresh⟩ := upTo.request sound.consistent pts
    refine ⟨done, waiting ++ new, upTo', ?_⟩
    intro job selected queued
    obtain ⟨⟨e, found, -⟩, -⟩ := sound.ready job selected
    have notNew : job.entry ∉ new := fun isNew => absurd (found.symm.trans (fresh _ isNew)) nofun
    have atHead := first job selected ((List.mem_append.1 queued).resolve_right notNew)
    rw [List.head?_append, atHead]
    rfl

theorem select (sound : x.Sound) (idle : x.job = none) :
    ∃ x', x.apply .select = .ok x' ∧ x'.Sound := by
  obtain ⟨done, waiting, upTo, -⟩ := sound.ordered
  cases search : x.cache.firstPending with
  | none => exact ⟨x, by simp only [apply, search], sound⟩
  | some job =>
      obtain ⟨-, ⟨e, found, pending⟩, predecessor⟩ := Cache.firstPending_spec search
      have live : ∀ p, job.predecessor = some p → ∃ o, x.cache.entry? p = some o := fun p isPredecessor =>
        sound.consistent.live_of_queued (predecessor p isPredecessor).1
      obtain ⟨b, begun, con, leaves, -, queue⟩ := sound.consistent.begin ⟨e, found⟩ live
      have heldNow : ({ x with cache := b, job := some job } : Exchange).held = job.references ++ x.held := by
        simp [held, idle]
      have ready : x.cache.Ready job := ⟨⟨e, found, pending⟩, fun p same => (predecessor p same).2⟩
      refine ⟨{ x with cache := b, job := some job }, ?_, ?_, ?_, done, waiting, ?_, ?_⟩
      · simp only [apply, search, begun]
        rfl
      · rwa [heldNow]
      · intro selected same
        obtain rfl := Option.some.inj same
        exact ready.keep leaves.keeps con fun h member => List.mem_append_left _ member
      · exact upTo.of_same_queue (sound.consistent.carries_of_leaves con leaves fun _ member => queue ▸ member)
          queue nofun
      · intro selected same _
        obtain rfl := Option.some.inj same
        obtain ⟨rest, waits, -⟩ := upTo.of_firstPending sound.consistent search
        rw [waits, List.head?_cons]

theorem publish (sound : x.Sound) (share : Bool) (frame : Frame) {job : Job} (selected : x.job = some job) :
    ∃ x', x.apply (.publish share frame) = .ok x' ∧ x'.Sound := by
  obtain ⟨done, waiting, upTo, first⟩ := sound.ordered
  obtain ⟨⟨e, found, pending⟩, predecessor⟩ := sound.ready job selected
  have con : x.cache.Consistent (job.references ++ x.hit.toList) := by
    simpa [held, selected] using sound.consistent
  obtain ⟨b, finished, con', queue, keeps, shown⟩ :=
    con.finish ⟨e, found, pending⟩ predecessor share frame
  have fresh : ∀ k, some job.entry = some k → x.cache.isRendered k = false := by
    rintro k ⟨⟩
    rw [Cache.isRendered_eq found, pending]
  have carries := con.carries con' keeps fresh fun _ member => queue ▸ member
  refine ⟨{ x with cache := b, job := none }, ?_, con', nofun, ?_⟩
  · simp only [apply, selected, finished]
    rfl
  · by_cases queued : job.entry ∈ waiting
    · have atHead := first job selected queued
      obtain ⟨rest, waits⟩ : ∃ rest, waiting = job.entry :: rest := List.head?_eq_some_iff.1 atHead
      obtain ⟨f, present⟩ := con'.live_of_queued (h := job.entry) <| by
        rw [queue, upTo.queue]
        exact List.mem_append_right _ queued
      exact ⟨_, rest, upTo.advance con carries queue waits (shown f present).1, nofun⟩
    · -- The entry left the queue while the worker rendered it.
      have gone : job.entry ∉ x.cache.queue := by
        rw [upTo.queue, List.mem_append, not_or]
        refine ⟨fun isDone => ?_, queued⟩
        exact absurd ((upTo.done _ isDone).symm.trans (fresh _ rfl)) nofun
      refine ⟨done, waiting, upTo.of_same_queue carries queue ?_, nofun⟩
      rintro h member ⟨⟩
      exact gone member

/-- A permitted turn meets no fault and leaves a sound exchange. -/
theorem turn (sound : x.Sound) {t : Turn} (permitted : x.Permits t) :
    ∃ x', x.apply t = .ok x' ∧ x'.Sound := by
  cases t with
  | select => exact sound.select permitted
  | publish share frame =>
      obtain ⟨job, selected⟩ := Option.isSome_iff_exists.1 permitted
      exact sound.publish share frame selected
  | request pts => exact ⟨_, rfl, sound.request pts⟩
  | lookUp pts =>
      have noHit : x.hit = none := permitted
      obtain ⟨hit, b, checked, con, leaves, queue, -⟩ := sound.consistent.checkOut pts
      refine ⟨{ x with cache := b, hit }, by simp only [apply, checked]; rfl, sound.drop ?_ leaves ?_⟩
      · refine con.of_perm ?_
        simp only [held, noHit, Option.toList_none, List.append_nil]
        exact List.perm_append_comm
      · rw [queue]
        exact List.dropWhile_suffix _
  | giveBack =>
      obtain ⟨h, keeps⟩ := Option.isSome_iff_exists.1 permitted
      have con : x.cache.Consistent (h :: x.job.elim [] Job.references) := by
        refine sound.consistent.of_perm ?_
        rw [held, keeps]
        exact List.perm_append_comm
      obtain ⟨b, released, con', leaves, queue⟩ := con.release
      refine ⟨{ x with cache := b, hit := none }, by simp only [apply, keeps, released]; rfl, ?_⟩
      refine sound.drop ?_ leaves (queue ▸ List.suffix_refl _)
      simpa [held] using con'
  | flush =>
      obtain ⟨b, flushed, con, leaves, empty⟩ := sound.consistent.flush
      refine ⟨{ x with cache := b }, by simp only [apply, flushed]; rfl, sound.drop con leaves ?_⟩
      rw [empty]
      exact List.nil_suffix

end Sound

/-! ## Whole runs -/

variable {n : Nat} {x : Exchange}

theorem Reached.sound (reached : Reached n x) : x.Sound := by
  induction reached with
  | start => exact .opened n
  | turn _ permitted applied ih =>
      obtain ⟨d, ended, sound⟩ := ih.turn permitted
      obtain rfl := Except.ok.inj (ended.symm.trans applied)
      exact sound

/-- In every order of turns the worker's job stays ready to be published, every permitted turn
ends without a fault, and the rendered entries of the queue come before all that are pending; so
the first pending one has a predecessor unless it is at the front. -/
theorem turns_compose (reached : Reached n x) :
    (∀ job, x.job = some job →
      (∃ e, x.cache.entry? job.entry = some e ∧ e.isRendered = false) ∧
        ∀ p, job.predecessor = some p → ∃ e, x.cache.entry? p = some e ∧ e.isRendered = true) ∧
      (∀ t, x.Permits t → ∃ x', x.apply t = .ok x') ∧
      (∃ done waiting, x.cache.queue = done ++ waiting ∧ (∀ h ∈ done, x.cache.isRendered h = true) ∧
        ∀ h ∈ waiting, x.cache.isRendered h = false) ∧
      ∀ job, x.cache.firstPending = some job → x.cache.queue.head? ≠ some job.entry →
        ∃ p, job.predecessor = some p := by
  have sound := reached.sound
  obtain ⟨done, waiting, upTo, -⟩ := sound.ordered
  refine ⟨?_, ?_, ⟨done, waiting, upTo.queue, upTo.done, upTo.waiting⟩, ?_⟩
  · intro job selected
    obtain ⟨pending, predecessor⟩ := sound.ready job selected
    refine ⟨pending, fun p isPredecessor => ?_⟩
    simpa [Cache.isRendered, Option.any_eq_true] using predecessor p isPredecessor
  · intro t permitted
    obtain ⟨x', applied, -⟩ := sound.turn permitted
    exact ⟨x', applied⟩
  · intro job found notFront
    obtain ⟨rest, waits, isLast⟩ := upTo.of_firstPending sound.consistent found
    cases done with
    | nil =>
        rw [upTo.queue, waits] at notFront
        exact absurd rfl notFront
    | cons h later => exact ⟨_, isLast.trans (List.getLast?_eq_some_getLast (List.cons_ne_nil h later))⟩

/-- The first of two queued entries is rendered, and the consumer keeps it. The worker has selected
the second, and so holds both. -/
def midway : Exchange where
  cache := {
    capacity := 2
    queue := [⟨0, 0⟩, ⟨1, 0⟩]
    arena.slots := #[⟨0, some ⟨.zero, 3, .owned (.blank 1)⟩⟩, ⟨0, some ⟨.one, 2, .pending⟩⟩]
    counters := { requested := 2, storagesMade := 1 } }
  job := some ⟨⟨1, 0⟩, some ⟨0, 0⟩⟩
  hit := some ⟨0, 0⟩

theorem reached_midway : Reached 2 midway := by
  have first : Reached 2 _ := .turn (t := .request .zero) .start trivial rfl
  have second : Reached 2 _ := .turn (t := .request .one) first trivial rfl
  have selected : Reached 2 _ := .turn (t := .select) second rfl rfl
  have rendered : Reached 2 _ := .turn (t := .publish false (.blank 1)) selected rfl (by with_unfolding_all rfl)
  have again : Reached 2 _ := .turn (t := .select) rendered rfl rfl
  exact .turn (t := .lookUp .zero) again rfl (by with_unfolding_all rfl)

theorem turns_compose_midway :
    Reached 2 midway ∧
      (∃ e, midway.cache.entry? ⟨1, 0⟩ = some e ∧ e.isRendered = false) ∧
      (∃ e, midway.cache.entry? ⟨0, 0⟩ = some e ∧ e.isRendered = true) ∧
      (∃ x', midway.apply (.publish true (.blank 0)) = .ok x') ∧
      midway.cache.firstPending = some ⟨⟨1, 0⟩, some ⟨0, 0⟩⟩ ∧
      midway.cache.queue.head? ≠ some ⟨1, 0⟩ ∧
      ∃ p, (⟨⟨1, 0⟩, some ⟨0, 0⟩⟩ : Job).predecessor = some p := by
  obtain ⟨ready, ends, -, behind⟩ := turns_compose reached_midway
  obtain ⟨pending, predecessor⟩ := ready ⟨⟨1, 0⟩, some ⟨0, 0⟩⟩ rfl
  have notFront : midway.cache.queue.head? ≠ some ⟨1, 0⟩ := by decide
  exact ⟨reached_midway, pending, predecessor _ rfl, ends (.publish true (.blank 0)) rfl, rfl, notFront,
    behind ⟨⟨1, 0⟩, some ⟨0, 0⟩⟩ rfl notFront⟩

end Exchange
end Subtitles
