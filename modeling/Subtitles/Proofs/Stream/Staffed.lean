/-
# Proofs.Stream.Staffed: a stream that renders ahead of a source of packets

A stream is `Staffed` that has a worker, whatever became of it, reads from a source that does not stall, and
has nothing out. A read of it is ready, and asks for its time (`prepare_of_packets`). An acquire takes out
what is rendered for its time, renders where nothing is queued for it, and otherwise waits for ever (`Staffed.shows`).
-/
import Subtitles.Proofs.Cache.Times
import Subtitles.Proofs.Stream.Acquire
import Subtitles.Proofs.Stream.OnDemand
import Subtitles.Proofs.Stream.Reading
namespace Subtitles

set_option autoImplicit false

namespace Stream

variable {σ : Type} [Backend σ] {s t : Stream σ} {g : Geometry} {pts : Binary64} {b : Cache} {h : Handle}

/-! ## The worker -/

theorem admission_carryOut (job : Job) (pts : Binary64) (s : Stream σ) :
    (s.carryOut job pts).cache.admission = s.cache.admission := by
  obtain ⟨f, became⟩ | ⟨f, b, begun, became⟩ | ⟨b, d, share, frame, begun, finished, became⟩ :=
    carryOut_ends job pts s
  · rw [became]
  · rw [became]
    exact Cache.admission_begin begun
  · rw [became]
    exact (Cache.admission_finish finished).trans (Cache.admission_begin begun)

/-- The worker renders what is queued, and queues and refuses nothing. -/
theorem times_settle {lost : List Handle} (con : s.cache.Consistent lost) :
    s.settle.cache.times = s.cache.times ∧ s.settle.cache.admission = s.cache.admission := by
  have kept : (∃ lost, s.settle.cache.Consistent lost) ∧ s.settle.cache.times = s.cache.times ∧
      s.settle.cache.admission = s.cache.admission := by
    refine settle_induction (P := fun t => (∃ lost, t.cache.Consistent lost) ∧ t.cache.times = s.cache.times ∧
      t.cache.admission = s.cache.admission) ⟨⟨lost, con⟩, rfl, rfl⟩ ?_
    rintro t t' ⟨⟨lost, con⟩, times, admission⟩ round
    refine ⟨round.consistent con, ?_⟩
    cases round with
    | decode => exact ⟨times, admission⟩
    | @render job pts _ _ next =>
        refine ⟨Eq.trans ?_ times, (admission_carryOut job pts t).trans admission⟩
        obtain ⟨frame, d, -, became, -, queue, carries, -⟩ | ⟨f, b, -, became, -, queue, carries⟩ :=
          carryOut_cases con (nextJob_spec next).2.1 pts
        · rw [became]
          exact Cache.times_congr queue carries.pts
        · rw [became]
          exact Cache.times_congr queue carries.pts
  exact kept.2

theorem threaded_carryOut (job : Job) (pts : Binary64) (running : s.threaded = true) :
    (s.carryOut job pts).threaded = true := by
  obtain ⟨f, became⟩ | ⟨f, b, -, became⟩ | ⟨b, d, share, frame, -, -, became⟩ := carryOut_ends job pts s
  · rw [became]
    rfl
  · rw [became]
    rfl
  · rw [became]
    exact running

/-- A worker that fails is not one that was never there. -/
theorem threaded_settle (s : Stream σ) : s.settle.threaded = s.threaded := by
  refine settle_induction (P := fun t => t.threaded = s.threaded) rfl fun t t' same round => ?_
  have running : t.threaded = true := by
    rw [threaded, round.running]
    rfl
  refine Eq.trans ?_ (running.symm.trans same)
  cases round with
  | decode => exact running
  | render => exact threaded_carryOut _ _ running

/-! ## Reading and taking out -/

/-- A read of a source that does not stall is ready, and its time is queued. -/
theorem prepare_of_packets (threaded : s.threaded = true) (room : s.pushesBack = false)
    (source : ∃ ps, s.source = .ofPackets ps) (pts : Binary64) :
    ∃ rest lastRead taken, s.prepare pts = (true, { s with
      source := .ofPackets rest, lastRead, pending := taken, cache := (s.cache.request pts).2 }) := by
  obtain ⟨ps, source⟩ := source
  have read : ∃ rest lastRead taken,
      s.readUntil pts = (true, { s with source := .ofPackets rest, lastRead, pending := taken }) := by
    cases known : s.drained || s.sawBeyond pts with
    | true =>
        refine ⟨ps, s.lastRead, s.pending, ?_⟩
        rw [readUntil, if_pos (by rw [known]; rfl), ← source]
    | false =>
        obtain ⟨undrained, unseen⟩ := Bool.or_eq_false_iff.1 known
        obtain ⟨taken, rest, found, -⟩ := reading_packets pts ps
        refine ⟨rest, (taken.getLast?.map (·.pts)).getD s.lastRead, s.pending ++ taken, ?_⟩
        have arrived : reading pts s.source.isOpen s.source.arrivals = ⟨true, taken, rest.map .packet⟩ := by
          rw [source]
          exact found
        rw [readUntil_eq pts undrained unseen room, arrived, takeIn_of_threaded threaded, source]
        rfl
  obtain ⟨rest, lastRead, taken, read⟩ := read
  refine ⟨rest, lastRead, taken, ?_⟩
  rw [prepare, read]
  simp only [if_true]
  rw [request, if_pos]
  exact threaded

/-- Another geometry is adopted first, which flushes the queue. -/
theorem acquire_adopts (threaded : s.threaded = true) (other : ¬ s.geometry.Same g) (self : g.Same g)
    (flushed : s.cache.flush = .ok b) (pts : Binary64) :
    s.acquire g pts = Stream.acquire g pts { s with geometry := g, cache := b } := by
  have done : s.adopt g = .ok { s with geometry := g, cache := b } := by
    rw [adopt, if_neg other, flushed]
    rfl
  have still : adopt g { s with geometry := g, cache := b } = .ok { s with geometry := g, cache := b } := if_pos self
  have threaded' : Stream.threaded { s with geometry := g, cache := b } = true := threaded
  rw [acquire, acquire, lookUp_eq threaded done, lookUp_eq threaded' still]

section Acquire

variable (threaded : s.threaded = true) (noFrame : s.current = none) (free : s.reserved = false)
  (same : s.geometry.Same g) (visible : g.isVoid = false)
include threaded noFrame free same visible

theorem acquire_miss (checked : s.cache.checkOut pts = .ok (none, b)) :
    s.acquire g pts = renderOnDemand g pts { s with cache := b } := by
  have alone : ¬ (s.current.isSome || s.reserved) = true := by simp [noFrame, free]
  have pixels : ¬ g.isVoid = true := by simp [visible]
  rw [acquire, lookUp_eq threaded (if_pos same), takeOut, if_neg alone, if_neg pixels, checked]

theorem acquire_hit {frame : Frame} (checked : s.cache.checkOut pts = .ok (some h, b))
    (shown : b.frame? h = some frame) :
    s.acquire g pts = (.frame ⟨pts, frame, .cached h⟩, { s with cache := b, current := some h }) := by
  have alone : ¬ (s.current.isSome || s.reserved) = true := by simp [noFrame, free]
  have pixels : ¬ g.isVoid = true := by simp [visible]
  rw [acquire, lookUp_eq threaded (if_pos same), takeOut, if_neg alone, if_neg pixels, checked]
  simp only [resume, shown]

theorem acquire_waits (checked : s.cache.checkOut pts = .ok (some h, b)) (waits : b.frame? h = none)
    (queued : b.isQueued h = true) : s.acquire g pts = (.stalled, { s with cache := b, current := some h }) := by
  have alone : ¬ (s.current.isSome || s.reserved) = true := by simp [noFrame, free]
  have pixels : ¬ g.isVoid = true := by simp [visible]
  rw [acquire, lookUp_eq threaded (if_pos same), takeOut, if_neg alone, if_neg pixels, checked]
  simp only [resume, waits, queued, if_true]

end Acquire

/-! ## Between two frames -/

structure Staffed (capacity : Nat) (s : Stream σ) : Prop where
  threaded : s.threaded = true
  room : s.pushesBack = false
  source : ∃ ps, s.source = .ofPackets ps
  noFrame : s.current = none
  free : s.reserved = false
  cache : ∃ lost, s.cache.Consistent lost
  capacity : s.cache.capacity = capacity

namespace Staffed

variable {n : Nat}

theorem prepare (staffed : s.Staffed n) (pts : Binary64) :
    ∃ r : Stream σ, s.prepare pts = (true, r) ∧ r.Staffed n ∧ r.cache = (s.cache.request pts).2 ∧
      r.backend = s.backend ∧ r.worker = s.worker ∧ r.geometry = s.geometry := by
  obtain ⟨rest, lastRead, taken, read⟩ := prepare_of_packets staffed.threaded staffed.room staffed.source pts
  obtain ⟨lost, con⟩ := staffed.cache
  refine ⟨_, read, ⟨staffed.threaded, staffed.room, ⟨rest, rfl⟩, staffed.noFrame, staffed.free,
    ⟨lost, (con.request pts).1⟩, ?_⟩, rfl, rfl, rfl, rfl⟩
  show (s.cache.request pts).2.capacity = n
  obtain ⟨_, _, refused⟩ | ⟨-, -, accepted⟩ := Cache.Consistent.request_cases s.cache pts
  · rw [refused]
    exact staffed.capacity
  · rw [accepted]
    exact staffed.capacity

theorem settle (staffed : s.Staffed n) : s.settle.Staffed n ∧ s.settle.cache.times = s.cache.times := by
  obtain ⟨lost, con⟩ := staffed.cache
  obtain ⟨times, admission⟩ := times_settle con
  have cache : ∃ lost, s.settle.cache.Consistent lost :=
    settle_induction (P := fun t => ∃ lost, t.cache.Consistent lost) ⟨lost, con⟩
      fun t t' ⟨lost, con⟩ round => round.consistent con
  have frame := s.settle_frame
  refine ⟨⟨(threaded_settle s).trans staffed.threaded, ?_, ?_, ?_, ?_, cache,
    (congrArg Prod.fst admission).trans staffed.capacity⟩, times⟩
  · rw [frame]
    exact staffed.room
  · rw [frame]
    exact staffed.source
  · rw [frame]
    exact staffed.noFrame
  · rw [frame]
    exact staffed.free

/-- Where there were no pixels, nothing stays queued of what was asked for. -/
theorem adopts (staffed : s.Staffed n) (unset : s.geometry.isVoid = true) (visible : g.isVoid = false)
    (self : g.Same g) :
    ∃ t : Stream σ, t.Staffed n ∧ t.geometry = g ∧ t.cache.queue = [] ∧ t.backend = s.backend ∧ t.worker = s.worker ∧
      (s.Idle → t.Idle) ∧ ∀ pts, s.acquire g pts = t.acquire g pts := by
  obtain ⟨lost, con⟩ := staffed.cache
  obtain ⟨b, flushed, conB, -, empty⟩ := con.flush
  have other : ¬ s.geometry.Same g := by
    intro same
    rw [same.isVoid_eq, visible] at unset
    cases unset
  refine ⟨{ s with geometry := g, cache := b }, ⟨staffed.threaded, staffed.room, staffed.source, staffed.noFrame,
    staffed.free, ⟨lost, conB⟩, (congrArg Prod.fst (Cache.admission_flush flushed)).trans staffed.capacity⟩, rfl, empty,
    rfl, rfl, fun idle => ⟨idle.decoded, fun _ h member => ?_⟩, acquire_adopts staffed.threaded other self flushed⟩
  have member : h ∈ b.queue := member
  rw [empty] at member
  cases member

omit [Backend σ] in
/-- A look-up drops earlier times, and finds the first of those left if it is for that time. -/
theorem checkOut (staffed : s.Staffed n) (pts : Binary64) :
    ∃ hit b, s.cache.checkOut pts = .ok (hit, b) ∧ (∃ lost, b.Consistent (hit.toList ++ lost)) ∧ b.capacity = n ∧
      Cache.Carries none s.cache b ∧ ∀ h, hit = some h → b.queue.head? = some h := by
  obtain ⟨lost, con⟩ := staffed.cache
  obtain ⟨hit, b, checked, conB, leaves, queue, found, -⟩ := con.checkOut pts
  have capacity : b.capacity = n := (congrArg Prod.fst (Cache.admission_checkOut checked)).trans staffed.capacity
  have carries : Cache.Carries none s.cache b := con.carries_of_leaves conB leaves fun k member =>
    (queue ▸ List.dropWhile_sublist _ : b.queue.Sublist s.cache.queue).subset member
  exact ⟨hit, b, checked, ⟨lost, conB⟩, capacity, carries, fun h same => (found h same).1⟩

/-- Where all that is queued is rendered, no frame is waited for. -/
theorem acquire_ne_stalled (staffed : s.Staffed n) (same : s.geometry.Same g) (visible : g.isVoid = false)
    (idle : s.Idle) (pts : Binary64) : (s.acquire g pts).1 ≠ .stalled := by
  obtain ⟨hit, b, checked, ⟨lost, con⟩, -, carries, first⟩ := staffed.checkOut pts
  cases hit with
  | none =>
      rw [acquire_miss staffed.threaded staffed.noFrame staffed.free same visible checked]
      exact renderOnDemand_ne_stalled _ _ _
  | some h =>
      have idle' : Idle { s with cache := b } := idle.carry carries rfl rfl
      have rendered := idle'.rendered (same.isVoid_eq.trans visible) h (List.mem_of_head? (first h rfl))
      obtain ⟨frame, shown⟩ := Option.isSome_iff_exists.1 ((Cache.isSome_frame? con.accounted h).trans rendered)
      rw [acquire_hit staffed.threaded staffed.noFrame staffed.free same visible checked shown]
      exact nofun

/-- A frame is taken out and given back: it was rendered for it, or was queued for that time. -/
theorem shows (staffed : s.Staffed n) (same : s.geometry.Same g) (visible : g.isVoid = false) {f : HeldFrame}
    (acquired : s.acquire g pts = (.frame f, t)) {r : Stream σ} (released : t.release f = .ok r) :
    ∃ hit b, s.cache.checkOut pts = .ok (hit, b) ∧ r.Staffed n ∧ (s.Idle → r.Idle) ∧
      ((hit = none ∧ (Backend.render g pts s.backend.state).1 = .ok f.frame ∧
          r = { s with cache := b, backend := (s.backend.render .demand g pts).2 }) ∨
        ∃ h c, hit = some h ∧ b.queue.head? = some h ∧ b.frame? h = some f.frame ∧ Cache.Carries none b c ∧
          c.queue = b.queue ∧ r = { s with cache := c }) := by
  obtain ⟨hit, b, checked, ⟨lost, conB⟩, capacity, carriesB, found⟩ := staffed.checkOut pts
  refine ⟨hit, b, checked, ?_⟩
  cases hit with
  | none =>
      rw [acquire_miss staffed.threaded staffed.noFrame staffed.free same visible checked] at acquired
      obtain ⟨-, -, drawn, rfl⟩ := renderOnDemand_frame acquired
      obtain ⟨h, _, -, out, -⟩ | ⟨-, -, rfl⟩ := release_cases released
      · exact absurd (staffed.noFrame.symm.trans out) nofun
      · refine ⟨⟨staffed.threaded, staffed.room, staffed.source, staffed.noFrame, rfl, ⟨lost, conB⟩, capacity⟩,
          fun idle => idle.carry carriesB rfl rfl, .inl ⟨rfl, drawn, ?_⟩⟩
        rw [staffed.free]
  | some h =>
      have first := found h rfl
      have queued : b.isQueued h = true := by simpa [Cache.isQueued] using List.mem_of_head? first
      cases shown : b.frame? h with
      | none =>
          rw [acquire_waits staffed.threaded staffed.noFrame staffed.free same visible checked shown queued] at acquired
          cases acquired
      | some frame =>
          rw [acquire_hit staffed.threaded staffed.noFrame staffed.free same visible checked shown] at acquired
          cases acquired
          obtain ⟨_, c, hold, -, given, rfl⟩ | ⟨hold, -⟩ := release_cases released
          · obtain rfl := Holding.cached.inj hold
            have conB : b.Consistent ([h] ++ lost) := conB
            obtain ⟨c', done, conC, leaves', queue'⟩ := Cache.Consistent.release conB
            obtain rfl := Except.ok.inj (done.symm.trans given)
            have carries := conB.carries_of_leaves conC leaves' fun k member => queue' ▸ member
            refine ⟨⟨staffed.threaded, staffed.room, staffed.source, rfl, staffed.free, ⟨lost, conC⟩,
              (congrArg Prod.fst (Cache.admission_release given)).trans capacity⟩,
              fun idle => idle.carry (carriesB.trans carries) rfl rfl,
              .inr ⟨h, c', rfl, first, shown, carries, queue', ?_⟩⟩
            rw [staffed.noFrame]
          · cases hold

end Staffed
end Stream
end Subtitles
