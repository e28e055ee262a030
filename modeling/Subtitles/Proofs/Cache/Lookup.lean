/-
# Proofs.Cache.Lookup: all that a look-up does

A look-up only reads the front of the queue. The queue is sorted, so what it drops there is every
entry before its time (`Consistent.dropWhile_queue`), and where the front is not for its time no
entry is. What it drops may free entries along links of sharing. Links are kept on both ends
by what is queued or held: an entry that such a root leads to is still there after the look-up
(`LeadsTo.live_of_leaves`), and it shows what it showed (`unchanged_of_leaves`).
-/
import Subtitles.Proofs.Cache.Balance
namespace Subtitles

set_option autoImplicit false

namespace Cache

variable {c b : Cache} {held roots : List Handle} {h root : Handle} {pts : Binary64}

/-- The entry is still live, for the time it was for, and it shows what it showed. -/
structure Unchanged (c b : Cache) (h : Handle) : Prop where
  live : ∃ e, b.entry? h = some e
  pts : b.pts? h = c.pts? h
  rendered : b.isRendered h = c.isRendered h
  frame : b.frame? h = c.frame? h

/-! ## What is left of an arena -/

/-- An entry that is left stays as it was, but for the references counted on it. -/
theorem unchanged_of_leaves (acc : c.arena.Accounted roots) {roots' : List Handle}
    (acc' : b.arena.Accounted roots') (leaves : c.arena.Leaves b.arena)
    (live : ∃ f, b.entry? h = some f) : c.Unchanged b h := by
  obtain ⟨f, there⟩ := live
  obtain ⟨e, wasThere, pts, storage⟩ := leaves h f there
  have rendered : b.isRendered h = c.isRendered h := by
    rw [isRendered_eq there, isRendered_eq wasThere, Entry.isRendered, Entry.isRendered, storage]
  refine ⟨⟨f, there⟩, ?_, rendered, ?_⟩
  · rw [pts?_eq there, pts?_eq wasThere, pts]
  · cases done : c.isRendered h with
    | true => exact frame?_keep acc leaves.keeps (fun _ target => by cases target) acc' done ⟨f, there⟩
    | false => rw [frame?_eq_none done, frame?_eq_none (rendered.trans done)]

/-- The links from an entry that is left hold all that they lead to. -/
theorem LeadsTo.live_of_leaves (leads : c.LeadsTo root h) (leaves : c.arena.Leaves b.arena)
    (acc : b.arena.Accounted roots) (live : ∃ f, b.entry? root = some f) : ∃ f, b.entry? h = some f := by
  induction leads with
  | refl => exact live
  | tail _ link ih =>
      obtain ⟨f, there⟩ := ih
      obtain ⟨e, wasThere, shares⟩ := link
      obtain ⟨e', wasThere', -, storage⟩ := leaves _ f there
      obtain rfl := Option.some.inj (wasThere.symm.trans wasThere')
      obtain ⟨o, ownerThere, -⟩ := acc.rendered there (storage.symm.trans shares)
      exact ⟨o, ownerThere⟩

/-! ## What is left of the queue -/

/-- An entry after one that is not before a time is not before it either. -/
theorem Before.isBefore_eq_false {k : Handle} (before : c.Before h k) (kept : c.isBefore pts h = false) :
    c.isBefore pts k = false := by
  obtain ⟨p, q, timeH, timeK, earlier⟩ := before
  have notEarly : ¬ p < pts := by simpa [isBefore, timeH] using kept
  have later : ¬ q < pts := fun early => notEarly (Binary64.lt_trans earlier early)
  simp [isBefore, timeK, later]

/-- In a sorted queue the entries before a time are the first ones. -/
theorem dropWhile_isBefore {queue : List Handle} (sorted : queue.Pairwise c.Before) :
    queue.dropWhile (c.isBefore pts) = queue.filter fun h => !c.isBefore pts h := by
  induction queue with
  | nil => rfl
  | cons h rest ih =>
      obtain ⟨before, sortedRest⟩ := List.pairwise_cons.1 sorted
      cases early : c.isBefore pts h with
      | true =>
          rw [List.dropWhile_cons_of_pos early, List.filter_cons_of_neg (by simp [early])]
          exact ih sortedRest
      | false =>
          have allKept : ∀ k ∈ h :: rest, (!c.isBefore pts k) = true := by
            intro k member
            rcases List.mem_cons.1 member with rfl | later
            · simp [early]
            · simp [(before k later).isBefore_eq_false early]
          rw [List.dropWhile_cons_of_neg (by simp [early]), List.filter_eq_self.2 allKept]

/-- An entry for exactly a time is not before it. -/
theorem isBefore_of_same {p : Binary64} (time : c.pts? h = some p) (same : p.Same pts) :
    c.isBefore pts h = false := by
  have notEarly : ¬ p < pts := Binary64.not_lt_of_same same
  simp [isBefore, time, notEarly]

/-- Beside queue and arena a look-up changes the counters of what is pruned and of what is freed. -/
theorem checkOut_frame {hit : Option Handle} (checked : c.checkOut pts = .ok (hit, b)) :
    ∃ pruned freed storagesFreed, b = { c with
      queue := b.queue, arena := b.arena, counters := { c.counters with pruned, freed, storagesFreed } } := by
  refine checkOut_induction (P := fun d => ∃ pruned freed storagesFreed, d = { c with
    queue := d.queue, arena := d.arena, counters := { c.counters with pruned, freed, storagesFreed } })
    checked (fun _ => pruneFrom_frame) ?_
  rintro d h d' ⟨pruned, freed, storagesFreed, became⟩ added
  obtain ⟨e, -, rfl⟩ := addReference_cases added
  exact ⟨pruned, freed, storagesFreed, congrArg (Cache.put · h _) became⟩

namespace Consistent

theorem dropWhile_queue (con : c.Consistent held) (pts : Binary64) :
    c.queue.dropWhile (c.isBefore pts) = c.queue.filter fun h => !c.isBefore pts h :=
  dropWhile_isBefore con.sorted

/-- What a look-up finds is the queued entry for exactly its time. -/
theorem checkOut_hit_iff (con : c.Consistent held) {hit : Option Handle}
    (checked : c.checkOut pts = .ok (hit, b)) (h : Handle) :
    hit = some h ↔ h ∈ c.queue ∧ ∃ p, c.pts? h = some p ∧ p.Same pts := by
  obtain ⟨hit', b', checked', conB, leaves, queue, found, missed⟩ := con.checkOut pts
  obtain ⟨rfl, rfl⟩ := Prod.mk.inj (Except.ok.inj (checked'.symm.trans checked))
  rw [con.dropWhile_queue] at queue
  have timeLeft : ∀ k ∈ b'.queue, b'.pts? k = c.pts? k := fun k member =>
    pts?_of_leaves leaves conB.accounted (List.mem_append_left _ member)
  constructor
  · intro hitH
    obtain ⟨first, p, time, same⟩ := found h hitH
    have left : h ∈ b'.queue := List.mem_of_head? first
    have queued := left
    rw [queue] at queued
    exact ⟨(List.mem_filter.1 queued).1, p, (timeLeft h left).symm.trans time, same⟩
  · rintro ⟨queued, p, time, same⟩
    have left : h ∈ b'.queue := by
      rw [queue]
      exact List.mem_filter.2 ⟨queued, by simp [isBefore_of_same time same]⟩
    cases hit' with
    | none => exact absurd same (missed rfl h left p ((timeLeft h left).trans time))
    | some k =>
        obtain ⟨first, q, timeK, sameK⟩ := found k rfl
        have leftK : k ∈ b'.queue := List.mem_of_head? first
        have queuedK := leftK
        rw [queue] at queuedK
        by_contra other
        have distinct : h ≠ k := fun e => other (congrArg some e.symm)
        exact con.apart queued (List.mem_filter.1 queuedK).1 distinct time
          ((timeLeft k leftK).symm.trans timeK) (same.trans sameK.symm)

/-- What a look-up drops is counted as pruned, and no other fate of a request is counted. -/
theorem checkOut_counters (con : c.Consistent held) {n : Nat} (balanced : c.Balanced n) {hit : Option Handle}
    (checked : c.checkOut pts = .ok (hit, b)) :
    ∃ freed storagesFreed, b.counters = { c.counters with
      pruned := c.counters.pruned + c.queue.countP (c.isBefore pts), freed, storagesFreed } := by
  obtain ⟨hit', b', checked', -, -, queue, -⟩ := con.checkOut pts
  obtain ⟨rfl, rfl⟩ := Prod.mk.inj (Except.ok.inj (checked'.symm.trans checked))
  obtain ⟨pruned, freed, storagesFreed, became⟩ := checkOut_frame checked
  have counters : b'.counters = { c.counters with pruned, freed, storagesFreed } := congrArg Cache.counters became
  have before : c.counters.requested = c.queue.length + c.counters.pruned + c.counters.flushed := balanced.queued
  have after : c.counters.requested = b'.queue.length + pruned + c.counters.flushed := by
    have queued := (balanced.checkOut checked).queued
    rwa [counters] at queued
  have split : c.queue.length = c.queue.countP (c.isBefore pts) + b'.queue.length := by
    rw [queue, con.dropWhile_queue, ← List.countP_eq_length_filter]
    simpa using List.length_eq_countP_add_countP (c.isBefore pts)
  refine ⟨freed, storagesFreed, ?_⟩
  rw [counters, show pruned = c.counters.pruned + c.queue.countP (c.isBefore pts) by omega]

end Consistent
end Cache

/-- In every reached ledger a look-up ends without a fault, for any time, one that is not a number
included, and then the ledger is a reached one. Of the queue it leaves the entries that are not
before the time, in order. It finds what is queued for exactly that time, and the caller holds
one more reference on it. It counts as pruned what it drops, and no request as refused or
flushed. And what is queued or held then leads only to entries that are as they were. -/
theorem lookup_effect {n : Nat} {l : Ledger} (reached : Reached n l) (pts : Binary64) :
    ∃ hit b, l.cache.checkOut pts = .ok (hit, b) ∧ Reached n ⟨b, hit.toList ++ l.held⟩ ∧
      b.queue = (l.cache.queue.filter fun h => !l.cache.isBefore pts h) ∧
      (∀ h, hit = some h ↔ h ∈ l.cache.queue ∧ ∃ p, l.cache.pts? h = some p ∧ p.Same pts) ∧
      (∀ h, hit = some h → b.arena.references h = 1 + b.arena.sharers h + (l.held.count h + 1)) ∧
      (∃ freed storagesFreed, b.counters = { l.cache.counters with
        pruned := l.cache.counters.pruned + l.cache.queue.countP (l.cache.isBefore pts),
        freed, storagesFreed }) ∧
      ∀ root, root ∈ b.queue ∨ root ∈ hit.toList ++ l.held → ∀ h, l.cache.LeadsTo root h →
        l.cache.Unchanged b h := by
  have con := reached.consistent
  obtain ⟨hit, b, checked, conB, leaves, queue, found, -⟩ := con.checkOut pts
  have applied : l.apply (.checkOut pts) = .ok ⟨b, hit.toList ++ l.held⟩ := by
    rw [Ledger.apply, checked]
    rfl
  refine ⟨hit, b, checked, .move (m := .checkOut pts) reached trivial applied, queue.trans (con.dropWhile_queue pts),
    con.checkOut_hit_iff checked, ?_, con.checkOut_counters reached.balanced checked, ?_⟩
  · intro h hitH
    have queued : b.isQueued h = true := List.contains_iff_mem.2 (List.mem_of_head? (found h hitH).1)
    have counted := Cache.Consistent.references_eq_reasons (l := ⟨b, hit.toList ++ l.held⟩) conB h
    rw [counted, Ledger.reasons, if_pos queued, hitH]
    simp
  · intro root named h leads
    have live := conB.accounted.live_of_root (List.mem_append.2 named)
    exact Cache.unchanged_of_leaves con.accounted conB.accounted leaves
      (leads.live_of_leaves leaves conB.accounted live)

/-- A look-up for the time of the second entry drops the first, which lives on: the second shares
from it. -/
theorem lookup_effect_linkedPair :
    Reached 2 linkedPair ∧ ∃ hit b, linkedPair.cache.checkOut .one = .ok (hit, b) ∧ hit = some ⟨1, 0⟩ ∧
      b.queue = [⟨1, 0⟩] ∧ b.counters.pruned = 1 ∧ linkedPair.cache.Unchanged b ⟨0, 0⟩ := by
  obtain ⟨hit, b, checked, -, queue, found, -, ⟨_, _, counters⟩, kept⟩ := lookup_effect reached_linkedPair .one
  have left : b.queue = [⟨1, 0⟩] := queue.trans (by decide +kernel)
  have leads : linkedPair.cache.LeadsTo ⟨1, 0⟩ ⟨0, 0⟩ := .single ⟨_, rfl, rfl⟩
  refine ⟨reached_linkedPair, hit, b, checked, ?_, left, ?_, kept ⟨1, 0⟩ (.inl ?_) _ leads⟩
  · exact (found ⟨1, 0⟩).2 ⟨by decide, .one, rfl, by decide⟩
  · rw [counters]
    show 0 + linkedPair.cache.queue.countP (linkedPair.cache.isBefore .one) = 1
    decide +kernel
  · rw [left]
    exact List.mem_singleton_self _

end Subtitles
