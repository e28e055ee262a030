/-
# Proofs.Cache.Progress: the worker fills the queue from the front

`RenderedUpTo` cuts the queue in two: what is rendered comes first, and then what is pending. A
search for a job finds the cut, so its entry is the first that waits and its predecessor the last
that is done (`RenderedUpTo.firstPending`).

Every operation keeps the cut or moves it. Dropping entries from the front shortens the first part
and, once that is gone, the second (`of_suffix`). A request adds to the second (`request`), and a
render published for its head moves that one over (`advance`).
-/
import Subtitles.Proofs.Cache.Jobs
namespace Subtitles

set_option autoImplicit false

namespace Cache

/-- The queue is what is `done`, all of it rendered, and then what is `waiting`, none of it. -/
structure RenderedUpTo (c : Cache) (done waiting : List Handle) : Prop where
  queue : c.queue = done ++ waiting
  done : ∀ h ∈ done, c.isRendered h = true
  waiting : ∀ h ∈ waiting, c.isRendered h = false

variable {c b : Cache} {held : List Handle} {h : Handle} {done waiting : List Handle}

/-! ## The search for a job -/

/-- The search passes over what is rendered, and keeps the last of it in mind. -/
theorem firstPendingFrom_append {before : Option Handle} (rendered : ∀ h ∈ done, c.isRendered h = true) :
    c.firstPendingFrom before (done ++ waiting) = c.firstPendingFrom (done.getLast?.or before) waiting := by
  induction done generalizing before with
  | nil => rfl
  | cons h rest ih =>
      have isDone := rendered h List.mem_cons_self
      have passed : ¬ (c.entry? h).any (!·.isRendered) = true := by
        cases found : c.entry? h <;> simp_all [isRendered]
      rw [List.cons_append, firstPendingFrom, if_neg passed,
        ih fun k member => rendered k (List.mem_cons_of_mem _ member), List.getLast?_cons]
      cases rest.getLast? <;> rfl

namespace RenderedUpTo

variable (upTo : c.RenderedUpTo done waiting)
include upTo

theorem firstPending (con : c.Consistent held) :
    c.firstPending = waiting.head?.map fun h => ⟨h, done.getLast?⟩ := by
  have last : done.getLast?.filter c.isRendered = done.getLast? := by
    cases isLast : done.getLast? with
    | none => rfl
    | some p => rw [Option.filter_some, if_pos (upTo.done p (List.mem_of_getLast? isLast))]
  rw [Cache.firstPending, upTo.queue, firstPendingFrom_append upTo.done, Option.or_none]
  cases waits : waiting with
  | nil => rfl
  | cons h rest =>
      have first : h ∈ waiting := waits ▸ List.mem_cons_self
      obtain ⟨e, found⟩ := con.live_of_queued (h := h) (upTo.queue ▸ List.mem_append_right _ first)
      have pending := upTo.waiting h first
      rw [isRendered_eq found] at pending
      rw [firstPendingFrom, if_pos (by simp [found, pending]), last]
      rfl

/-- A job found is the first that waits, behind the last that is done. -/
theorem of_firstPending (con : c.Consistent held) {job : Job} (found : c.firstPending = some job) :
    ∃ rest, waiting = job.entry :: rest ∧ job.predecessor = done.getLast? := by
  rw [upTo.firstPending con] at found
  cases waiting with
  | nil => exact absurd found nofun
  | cons h rest =>
      obtain rfl := Option.some.inj found
      exact ⟨rest, rfl, rfl⟩

/-! ## Moving the cut -/

theorem of_suffix (carries : Carries none c b) (suffix : b.queue <:+ c.queue) :
    ∃ done' waiting', b.RenderedUpTo done' waiting' ∧ done' <:+ done ∧ waiting' <:+ waiting := by
  obtain ⟨dropped, split⟩ := suffix
  rw [upTo.queue] at split
  have same : ∀ h ∈ b.queue, b.isRendered h = c.isRendered h := fun h member =>
    carries.rendered h member nofun
  obtain ⟨left, queue, parts⟩ | ⟨more, _, parts⟩ := List.append_eq_append_iff.1 split
  · refine ⟨left, waiting, ⟨parts, fun h member => ?_, fun h member => ?_⟩, ⟨dropped, queue.symm⟩, List.suffix_refl _⟩
    · rw [same h (parts ▸ List.mem_append_left _ member)]
      exact upTo.done h (queue ▸ List.mem_append_right _ member)
    · rw [same h (parts ▸ List.mem_append_right _ member)]
      exact upTo.waiting h member
  · refine ⟨[], b.queue, ⟨rfl, fun _ member => absurd member List.not_mem_nil, fun h member => ?_⟩,
      List.nil_suffix, ⟨more, parts.symm⟩⟩
    rw [same h member]
    exact upTo.waiting h (parts ▸ List.mem_append_right _ member)

/-- Where nothing leaves the queue and nothing of it is rendered, the cut stays. -/
theorem of_same_queue {target : Option Handle} (carries : Carries target c b) (queue : b.queue = c.queue)
    (apart : ∀ h ∈ c.queue, target ≠ some h) : b.RenderedUpTo done waiting := by
  have same : ∀ h ∈ c.queue, b.isRendered h = c.isRendered h := fun h member =>
    carries.rendered h (queue ▸ member) (apart h member)
  refine ⟨queue.trans upTo.queue, fun h member => ?_, fun h member => ?_⟩
  · rw [same h (upTo.queue ▸ List.mem_append_left _ member)]
    exact upTo.done h member
  · rw [same h (upTo.queue ▸ List.mem_append_right _ member)]
    exact upTo.waiting h member

/-- A request queues an entry behind all that waits, if any. -/
theorem request (con : c.Consistent held) (pts : Binary64) :
    ∃ new, (c.request pts).2.RenderedUpTo done (waiting ++ new) ∧
      ∀ h ∈ new, c.entry? h = none := by
  obtain ⟨con', ⟨-, arena, queue⟩ | ⟨new, -, fresh, queue, look⟩⟩ := con.request pts
  · have carries : Carries none c (c.request pts).2 :=
      con.carries_of_leaves con' (arena ▸ .refl _) fun h member => queue ▸ member
    exact ⟨[], (List.append_nil waiting).symm ▸ upTo.of_same_queue carries queue nofun, nofun⟩
  · have older : ∀ h ∈ c.queue, Cache.isRendered (c.request pts).2 h = c.isRendered h := by
      intro h member
      obtain ⟨e, found⟩ := con.live_of_queued member
      have other : h ≠ new := by
        rintro rfl
        exact absurd (found.symm.trans fresh) nofun
      rw [Cache.isRendered, Cache.isRendered, look h, if_neg other]
    refine ⟨[new], ⟨?_, fun h member => ?_, fun h member => ?_⟩, fun h isNew => ?_⟩
    · rw [queue, upTo.queue, List.append_assoc]
    · rw [older h (upTo.queue ▸ List.mem_append_left _ member)]
      exact upTo.done h member
    · rcases List.mem_append.1 member with waited | isNew
      · rw [older h (upTo.queue ▸ List.mem_append_right _ waited)]
        exact upTo.waiting h waited
      · rw [List.mem_singleton.1 isNew, Cache.isRendered, look new, if_pos rfl]
        rfl
    · exact List.mem_singleton.1 isNew ▸ fresh

/-- The head of what waits has its render, and goes to what is done. -/
theorem advance {rest : List Handle} (con : c.Consistent held) (carries : Carries (some h) c b)
    (queue : b.queue = c.queue) (waits : waiting = h :: rest) (rendered : b.isRendered h = true) :
    b.RenderedUpTo (done ++ [h]) rest := by
  have queued : c.queue = done ++ [h] ++ rest := by
    rw [upTo.queue, waits, List.append_assoc, List.singleton_append]
  have distinct := con.nodup_queue
  have pending := upTo.waiting h (waits ▸ List.mem_cons_self)
  have same : ∀ k ∈ c.queue, k ≠ h → b.isRendered k = c.isRendered k := fun k member other =>
    carries.rendered k (queue ▸ member) fun same => other (Option.some.inj same).symm
  refine ⟨queue.trans queued, fun k member => ?_, fun k member => ?_⟩
  · rcases List.mem_append.1 member with earlier | atEnd
    · have wasDone := upTo.done k earlier
      rw [same k (upTo.queue ▸ List.mem_append_left _ earlier), wasDone]
      rintro rfl
      exact absurd (wasDone.symm.trans pending) nofun
    · exact List.mem_singleton.1 atEnd ▸ rendered
  · rw [queued, List.nodup_append] at distinct
    rw [same k (queued ▸ List.mem_append_right _ member)]
    · exact upTo.waiting k (waits ▸ List.mem_cons_of_mem _ member)
    · exact fun isHead => distinct.2.2 h (List.mem_append_right _ (List.mem_singleton_self h)) k member isHead.symm

end RenderedUpTo

end Cache
end Subtitles
