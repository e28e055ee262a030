/-
# Proofs.Cache.Times: which times are queued

A queue is told here by its `times` alone. A request adds its time at the end
(`Consistent.times_request`), a look-up drops those before its own and hits where that one is first
then (`Consistent.times_checkOut`), and a job of the worker leaves them as they are. Only requests are
ever refused: everything else leaves the `admission` of a cache as it is.
-/
import Subtitles.Proofs.Cache.Balance
import Subtitles.Proofs.Cache.Jobs
namespace Subtitles

set_option autoImplicit false

namespace Cache

variable {c b : Cache} {held : List Handle} {h : Handle} {pts : Binary64}

/-- The times of the queued entries, in order. -/
def times (c : Cache) : List Binary64 := c.queue.filterMap c.pts?

/-- How many entries the queue takes, and how many requests were refused for want of room and for
coming late. -/
def admission (c : Cache) : Nat × Nat × Nat := (c.capacity, c.counters.refusedFull, c.counters.refusedLate)

theorem times_of_queue_nil (empty : c.queue = []) : c.times = [] := by
  rw [times, empty]
  rfl

theorem times_congr (queue : b.queue = c.queue) (same : ∀ h ∈ b.queue, b.pts? h = c.pts? h) : b.times = c.times := by
  rw [times, List.filterMap_congr same, queue]
  rfl

namespace Consistent

/-- Every queued entry has its time. -/
theorem pts_queued (con : c.Consistent held) (queued : h ∈ c.queue) : ∃ p, c.pts? h = some p := by
  obtain ⟨e, found⟩ := con.live_of_queued queued
  exact ⟨e.pts, pts?_eq found⟩

theorem length_times (con : c.Consistent held) : c.times.length = c.queue.length := by
  refine List.filterMap_length_eq_length.2 fun h queued => ?_
  obtain ⟨p, time⟩ := con.pts_queued queued
  rw [time]
  rfl

theorem times_eq_nil_iff (con : c.Consistent held) : c.times = [] ↔ c.queue = [] := by
  rw [← List.length_eq_zero_iff, con.length_times, List.length_eq_zero_iff]

/-- The times queued are in strictly increasing order. -/
theorem sorted_times (con : c.Consistent held) : c.times.Pairwise (· < ·) := by
  refine con.sorted.filterMap c.pts? ?_
  rintro h k ⟨p, q, first, second, before⟩ p' first' q' second'
  obtain rfl := Option.some.inj (first.symm.trans first')
  obtain rfl := Option.some.inj (second.symm.trans second')
  exact before

/-- A request that is accepted adds its time behind all others. -/
theorem times_request_eq (con : c.Consistent held) (pts : Binary64) :
    (c.request pts).2.times = c.times ++ if (c.request pts).1.isSome then [pts] else [] := by
  obtain ⟨-, ⟨refused, arena, queue⟩ | ⟨new, accepted, fresh, queue, look⟩⟩ := con.request pts
  · have kept : (c.request pts).2.times = c.times :=
      times_congr queue fun h _ => congrArg (fun a => (a.get? h).map Entry.pts) arena
    simp [kept, refused]
  · have kept : ∀ k ∈ c.queue, (c.request pts).2.pts? k = c.pts? k := by
      intro k member
      obtain ⟨e, found⟩ := con.live_of_queued member
      rw [Cache.pts?, look k, if_neg, Cache.pts?]
      rintro rfl
      cases found.symm.trans fresh
    have added : (c.request pts).2.pts? new = some pts := by
      rw [Cache.pts?, look new, if_pos rfl]
      rfl
    rw [times, queue, List.filterMap_append, List.filterMap_congr kept, List.filterMap_cons_some added, accepted]
    rfl

/-- A time after all that are queued is taken in where there is room. -/
theorem times_request (con : c.Consistent held) (room : c.times.length < c.capacity)
    (later : ∀ p ∈ c.times, p < pts) :
    (c.request pts).2.times = c.times ++ [pts] ∧ (c.request pts).2.admission = c.admission := by
  have notFull : ¬ c.capacity ≤ c.queue.length := Nat.not_le.2 (con.length_times ▸ room)
  have isLater : (c.queue.getLast?.all fun last => (c.pts? last).any fun p => decide (p < pts)) = true := by
    cases last : c.queue.getLast? with
    | none => rfl
    | some k =>
        have queued := List.mem_of_getLast? last
        obtain ⟨p, time⟩ := con.pts_queued queued
        have before := later p (List.mem_filterMap.2 ⟨k, queued, time⟩)
        simp [time, before]
  have accepted : (c.request pts).1.isSome = true ∧ (c.request pts).2.admission = c.admission := by
    simp [Cache.request, notFull, isLater, admission]
  exact ⟨by rw [con.times_request_eq, if_pos accepted.1], accepted.2⟩

theorem dropWhile_times (queue : List Handle) (live : ∀ h ∈ queue, ∃ p, c.pts? h = some p) :
    (queue.dropWhile (c.isBefore pts)).filterMap c.pts? =
      (queue.filterMap c.pts?).dropWhile fun p => decide (p < pts) := by
  induction queue with
  | nil => rfl
  | cons h rest ih =>
      obtain ⟨p, time⟩ := live h List.mem_cons_self
      have before : c.isBefore pts h = decide (p < pts) := by rw [isBefore, time, Option.any_some]
      rw [List.dropWhile_cons, List.filterMap_cons_some time, List.dropWhile_cons, before]
      split
      · exact ih fun k member => live k (List.mem_cons_of_mem _ member)
      · rw [List.filterMap_cons_some time]

end Consistent

/-! ## What is left alone -/

theorem admission_release (released : c.release h = .ok b) : b.admission = c.admission := by
  obtain ⟨_, _, became⟩ := release_frame c h b released
  rw [became]
  rfl

theorem admission_addReference (added : c.addReference h = .ok b) : b.admission = c.admission := by
  obtain ⟨e, -, rfl⟩ := addReference_cases added
  rfl

theorem admission_pruneFrom {queue : List Handle} (pruned : c.pruneFrom pts queue = .ok b) :
    b.admission = c.admission := by
  obtain ⟨_, _, _, became⟩ := pruneFrom_frame pruned
  rw [became]
  rfl

theorem admission_flushFrom {queue : List Handle} (flushed : c.flushFrom queue = .ok b) :
    b.admission = c.admission :=
  flushFrom_induction (P := fun d _ => d.admission = c.admission) flushed rfl fun _ _ _ _ kept released =>
    (admission_release released).trans kept

theorem admission_flush (flushed : c.flush = .ok b) : b.admission = c.admission := by
  have kept : b.admission = Cache.admission { c with queue := [] } := admission_flushFrom flushed
  exact kept

theorem admission_checkOut {hit : Option Handle} (checked : c.checkOut pts = .ok (hit, b)) :
    b.admission = c.admission :=
  checkOut_induction (P := fun d => d.admission = c.admission) checked (fun _ => admission_pruneFrom)
    fun _ _ _ kept added => (admission_addReference added).trans kept

theorem admission_begin {job : Job} (begun : c.begin job = .ok b) : b.admission = c.admission :=
  begin_induction (P := fun d => d.admission = c.admission) begun rfl fun _ _ _ kept added =>
    (admission_addReference added).trans kept

theorem admission_publish {frame : Frame} (published : c.publish h frame = .ok b) : b.admission = c.admission := by
  obtain ⟨e, -, -, rfl⟩ := publish_cases published
  rfl

theorem admission_share {owner : Handle} (shared : c.share h owner = .ok b) : b.admission = c.admission := by
  obtain ⟨-, e, -, -, rfl⟩ := share_cases shared
  rfl

theorem admission_finish {job : Job} {share : Bool} {frame : Frame} (finished : c.finish job share frame = .ok b) :
    b.admission = c.admission :=
  finish_induction (P := fun d => d.admission = c.admission) finished rfl
    (fun _ _ _ _ kept published => (admission_publish published).trans kept)
    (fun _ _ _ _ kept shared => (admission_share shared).trans kept)
    fun _ _ _ kept released => (admission_release released).trans kept

/-! ## Looking up -/

/-- A look-up drops the times before its own. It hits where its own comes first then. -/
theorem Consistent.times_checkOut (con : c.Consistent held) {hit : Option Handle}
    (checked : c.checkOut pts = .ok (hit, b)) :
    b.times = c.times.dropWhile (fun p => decide (p < pts)) ∧
      hit.isSome = b.times.head?.any (fun p => decide (p.Same pts)) := by
  obtain ⟨hit', b', checked', conB, leaves, queue, found, missed⟩ := con.checkOut pts
  obtain ⟨rfl, rfl⟩ := Prod.mk.inj (Except.ok.inj (checked'.symm.trans checked))
  refine ⟨?_, ?_⟩
  · have kept : ∀ h ∈ b'.queue, b'.pts? h = c.pts? h := fun h member =>
      pts?_of_leaves leaves conB.accounted (List.mem_append_left _ member)
    rw [times, List.filterMap_congr kept, queue]
    exact dropWhile_times c.queue fun h => con.pts_queued
  · cases hit' with
    | some h =>
        obtain ⟨first, p, time, same⟩ := found h rfl
        obtain ⟨rest, front⟩ : ∃ rest, b'.queue = h :: rest := List.head?_eq_some_iff.1 first
        rw [times, front, List.filterMap_cons_some time]
        simp [same]
    | none =>
        cases first : b'.times.head? with
        | none => rfl
        | some p =>
            obtain ⟨h, queued, time⟩ := List.mem_filterMap.1 (List.mem_of_head? first)
            simp [missed rfl h queued p time]

/-- Where nothing is queued there is nothing to find. -/
theorem Consistent.checkOut_of_nil (con : c.Consistent held) (empty : c.queue = []) (pts : Binary64) :
    ∃ b, c.checkOut pts = .ok (none, b) ∧ b.queue = [] := by
  obtain ⟨hit, b, checked, -, -, queue, found, -⟩ := con.checkOut pts
  rw [empty, List.dropWhile_nil] at queue
  cases hit with
  | none => exact ⟨b, checked, queue⟩
  | some h =>
      have first := (found h rfl).1
      rw [queue] at first
      cases first

end Cache
end Subtitles
