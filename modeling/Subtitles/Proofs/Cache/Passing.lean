/-
# Proofs.Cache.Passing: playback that passes every time asked for

`Asked` are the ledgers that permitted moves reach, with the times that requests queued on the way.
`Ledger.timesAfter` says what a move makes of the times in the queue (`Ledger.times_apply`), so all that
are there were asked for (`Asked.times_subset`), and a look-up past all of them leaves nothing
(`passed_requests_pruned`).

A time that is no number is the exception. An empty queue takes it, as there is nothing to come after.
It then has the queue to itself (`Consistent.times_of_nan`): nothing comes after it, no look-up is past
it, and only a flush takes it away (`Ledger.timesAfter_of_nan`).
-/
import Mathlib.Data.List.TakeWhile
import Subtitles.Proofs.Cache.Bounds
import Subtitles.Proofs.Cache.Times
namespace Subtitles

set_option autoImplicit false

namespace Ledger

variable {l l' : Ledger} {m : Move} {t : Binary64}

/-- The time that a move queues, if there is one. -/
def queues (l : Ledger) : Move → List Binary64
  | .request pts => if (l.cache.request pts).1.isSome then [pts] else []
  | .checkOut _ | .firstPending | .addReference _ | .release _ | .publish .. | .share .. | .flush => []

/-- The times that are queued after a move. -/
def timesAfter (l : Ledger) : Move → List Binary64
  | .request pts => l.cache.times ++ l.queues (.request pts)
  | .checkOut pts => l.cache.times.dropWhile fun t => decide (t < pts)
  | .flush => []
  | .firstPending | .addReference _ | .release _ | .publish .. | .share .. => l.cache.times

theorem times_apply (con : l.cache.Consistent l.held) (permitted : l.Permits m) (applied : l.apply m = .ok l') :
    l'.cache.times = l.timesAfter m := by
  obtain ⟨con', keeps⟩ := apply_eq_ok con permitted applied
  -- Where the queue stays so do the times, for no entry changes its own.
  have still : l'.cache.queue = l.cache.queue → l'.cache.times = l.cache.times := fun queue =>
    Cache.times_congr queue fun h member => by
      obtain ⟨f, there⟩ := con'.live_of_queued member
      obtain ⟨e, found⟩ := con.live_of_queued (queue ▸ member)
      rw [Cache.pts?_eq there, Cache.pts?_eq found, (keeps h e f found there).1]
  cases m with
  | request pts =>
      obtain rfl := Except.ok.inj applied
      exact con.times_request_eq pts
  | checkOut pts =>
      obtain ⟨⟨hit, b⟩, checked, rfl⟩ := of_map_eq_ok applied
      exact (con.times_checkOut checked).1
  | firstPending =>
      obtain rfl := Except.ok.inj applied
      rfl
  | addReference h =>
      obtain ⟨e, found⟩ := permitted
      rw [apply, (con.addReference found).1] at applied
      obtain rfl := Except.ok.inj applied
      exact still rfl
  | release h =>
      obtain ⟨b, released, rfl⟩ := of_map_eq_ok applied
      obtain ⟨_, _, became⟩ := Cache.release_frame l.cache h b released
      exact still (by rw [became])
  | publish h frame =>
      obtain ⟨e, found, pending⟩ := permitted
      obtain ⟨b, published, -, queue, -⟩ := con.publish found pending frame
      rw [apply, published] at applied
      obtain rfl := Except.ok.inj applied
      exact still queue
  | share h owner =>
      obtain ⟨⟨e, found, pending⟩, holds, rendered⟩ := permitted
      obtain ⟨o, there⟩ := con.live_of_held holds
      rw [Cache.isRendered_eq there] at rendered
      obtain ⟨b, shared, -, queue, -⟩ :=
        (con.of_perm (List.perm_cons_erase holds)).share found pending there rendered
      rw [apply, shared] at applied
      obtain rfl := Except.ok.inj applied
      exact still queue
  | flush =>
      obtain ⟨b, flushed, rfl⟩ := of_map_eq_ok applied
      obtain ⟨b', flushed', -, -, queue⟩ := con.flush
      obtain rfl := Except.ok.inj (flushed'.symm.trans flushed)
      exact Cache.times_of_queue_nil queue

theorem timesAfter_subset (l : Ledger) (m : Move) : l.timesAfter m ⊆ l.cache.times ++ l.queues m := by
  cases m with
  | request pts => exact List.Subset.refl _
  | checkOut pts =>
      exact List.Subset.trans (List.dropWhile_sublist _).subset (List.subset_append_left _ _)
  | flush => exact List.nil_subset _
  | firstPending | addReference | release | publish | share => exact List.subset_append_left _ _

end Ledger

/-! ## Times that are no numbers -/

theorem Binary64.not_lt_of_nan {x y : Binary64} (nan : x.isNaN = true) : ¬ x < y ∧ ¬ y < x :=
  ⟨fun before => Bool.false_ne_true (before.1.1.symm.trans nan),
    fun before => Bool.false_ne_true (before.1.2.symm.trans nan)⟩

namespace Cache.Consistent

variable {c : Cache} {held : List Handle} {t pts : Binary64}

/-- What is no number is queued alone. -/
theorem times_of_nan (con : c.Consistent held) (queued : t ∈ c.times) (nan : t.isNaN = true) : c.times = [t] := by
  obtain ⟨front, back, times⟩ := List.append_of_mem queued
  have sorted := con.sorted_times
  rw [times] at sorted
  obtain ⟨-, behind, across⟩ := List.pairwise_append.1 sorted
  have noFront : front = [] := List.eq_nil_iff_forall_not_mem.2 fun p earlier =>
    (Binary64.not_lt_of_nan nan).2 (across p earlier t List.mem_cons_self)
  have noBack : back = [] := List.eq_nil_iff_forall_not_mem.2 fun p later =>
    (Binary64.not_lt_of_nan nan).1 (List.rel_of_pairwise_cons behind later)
  rw [times, noFront, noBack]
  rfl

/-- No time comes after one that is no number. -/
theorem request_of_nan (con : c.Consistent held) (queued : t ∈ c.times) (nan : t.isNaN = true) (pts : Binary64) :
    (c.request pts).1 = none := by
  have grown := con.times_request_eq pts
  have sorted := (con.request pts).1.sorted_times
  rw [con.times_of_nan queued nan] at grown
  rw [grown] at sorted
  cases answer : (c.request pts).1 with
  | none => rfl
  | some h =>
      simp only [answer, Option.isSome_some, if_true, List.cons_append, List.nil_append] at sorted
      exact absurd (List.rel_of_pairwise_cons sorted (List.mem_singleton_self pts)) (Binary64.not_lt_of_nan nan).1

end Cache.Consistent

/-- Only a flush takes away what is no number. -/
theorem Ledger.timesAfter_of_nan {l : Ledger} {t : Binary64} (con : l.cache.Consistent l.held)
    (queued : t ∈ l.cache.times) (nan : t.isNaN = true) {m : Move} (kept : m ≠ .flush) : l.timesAfter m = [t] := by
  have alone := con.times_of_nan queued nan
  cases m with
  | request pts => simp [timesAfter, queues, alone, con.request_of_nan queued nan pts]
  | checkOut pts => simp [timesAfter, alone, (Binary64.not_lt_of_nan nan).1]
  | flush => exact absurd rfl kept
  | firstPending | addReference | release | publish | share => exact alone

/-! ## Whole runs -/

/-- The ledgers that permitted moves reach from an empty cache for `n` queued entries, with all times that
were queued on the way. -/
inductive Asked (n : Nat) : List Binary64 → Ledger → Prop
  | start : Asked n [] (.opened n)
  | move {asked : List Binary64} {l l' : Ledger} {m : Move} : Asked n asked l → l.Permits m →
      l.apply m = .ok l' → Asked n (asked ++ l.queues m) l'

namespace Asked

variable {n : Nat} {asked : List Binary64} {l : Ledger} {pts : Binary64}

theorem reached (run : Asked n asked l) : Reached n l := by
  induction run with
  | start => exact .start
  | move _ permitted applied ih => exact .move ih permitted applied

theorem times_subset (run : Asked n asked l) : l.cache.times ⊆ asked := by
  induction run with
  | start => exact List.nil_subset _
  | @move asked l l' m before permitted applied ih =>
      rw [Ledger.times_apply before.reached.consistent permitted applied]
      refine List.Subset.trans (l.timesAfter_subset m) (List.append_subset.2 ⟨?_, List.subset_append_right _ _⟩)
      exact List.Subset.trans ih (List.subset_append_left _ _)

/-- A look-up past all that was asked for finds nothing. -/
theorem checkOut (run : Asked n asked l) (passed : ∀ t ∈ asked, ¬ pts ≤ t) :
    ∃ b, l.cache.checkOut pts = .ok (none, b) ∧ Asked n asked ⟨b, l.held⟩ ∧
      b.times = l.cache.times.dropWhile fun t => decide (t < pts) := by
  have con := run.reached.consistent
  obtain ⟨hit, b, checked, conB, -⟩ := con.checkOut pts
  obtain ⟨times, found⟩ := con.times_checkOut checked
  have missed : hit = none := by
    refine Option.not_isSome_iff_eq_none.1 fun some => ?_
    rw [found, Option.any_eq_true] at some
    obtain ⟨t, first, same⟩ := some
    have queued : t ∈ l.cache.times := (List.dropWhile_sublist _).subset (times ▸ List.mem_of_head? first)
    have same : t.Same pts := of_decide_eq_true same
    exact passed t (run.times_subset queued) ⟨same.1.symm, Int.le_of_eq same.2.symm⟩
  subst missed
  have applied : l.apply (.checkOut pts) = .ok ⟨b, l.held⟩ := by
    rw [Ledger.apply, checked]
    rfl
  have after : Asked n (asked ++ l.queues (.checkOut pts)) ⟨b, l.held⟩ := .move run trivial applied
  rw [Ledger.queues, List.append_nil] at after
  exact ⟨b, checked, after, times⟩

end Asked

/-- A look-up past all times that were queued in a run ends without a fault and finds nothing. It empties the
queue, which then takes any time, where its own time and all that are queued are numbers. And what is no
number is queued alone, and stays there whatever is done but a flush. -/
theorem passed_requests_pruned {n : Nat} {asked : List Binary64} {l : Ledger} (run : Asked n asked l)
    {pts : Binary64} (passed : ∀ t ∈ asked, ¬ pts ≤ t) :
    (∃ b, l.cache.checkOut pts = .ok (none, b) ∧ Asked n asked ⟨b, l.held⟩ ∧
      (b.queue = [] ↔ l.cache.queue = [] ∨ pts.isNaN = false ∧ ∀ t ∈ l.cache.times, t.isNaN = false) ∧
      (b.queue = [] → 0 < n → ∀ t, (b.request t).1.isSome = true)) ∧
    ∀ t ∈ l.cache.times, t.isNaN = true → l.cache.times = [t] ∧
      ∀ m l', m ≠ .flush → l.Permits m → l.apply m = .ok l' → l'.cache.times = [t] := by
  have con := run.reached.consistent
  refine ⟨?_, fun t queued nan => ⟨con.times_of_nan queued nan, fun m l' kept permitted applied => ?_⟩⟩
  · obtain ⟨b, checked, after, times⟩ := run.checkOut passed
    have capacity : b.capacity = n := after.reached.balanced.capacity
    refine ⟨b, checked, after, ?_, fun empty room t => by simp [Cache.request, empty, capacity, room.ne']⟩
    rw [← after.reached.consistent.times_eq_nil_iff, times, List.dropWhile_eq_nil_iff, ← con.times_eq_nil_iff]
    constructor
    · intro early
      by_cases empty : l.cache.times = []
      · exact .inl empty
      · obtain ⟨t, queued⟩ := List.exists_mem_of_ne_nil _ empty
        have number := fun t queued => (of_decide_eq_true (early t queued)).1
        exact .inr ⟨(number t queued).2, fun t queued => (number t queued).1⟩
    · rintro (empty | ⟨number, numbers⟩) t queued
      · rw [empty] at queued
        exact absurd queued List.not_mem_nil
      · exact decide_eq_true (Binary64.lt_of_not_le ⟨number, numbers t queued⟩ (passed t (run.times_subset queued)))
  · rw [Ledger.times_apply con permitted applied, Ledger.timesAfter_of_nan con queued nan kept]

/-- Two requests, nothing rendered. -/
def hintedPair : Ledger where
  cache := [.zero, .one].foldl (fun c pts => (c.request pts).2) (.ofCapacity 2)
  held := []

theorem asked_hintedPair : Asked 2 [.zero, .one] hintedPair := by
  have first : Asked 2 _ _ := .move (m := .request .zero) .start trivial rfl
  exact .move (m := .request .one) first trivial rfl

/-- A look-up past both makes room, also for a time that has been played. -/
theorem passed_requests_pruned_hintedPair :
    Asked 2 [.zero, .one] hintedPair ∧ (∀ t ∈ [Binary64.zero, .one], ¬ .infinity ≤ t) ∧
      ∃ b, hintedPair.cache.checkOut .infinity = .ok (none, b) ∧ b.queue = [] ∧
        (b.request .zero).1.isSome = true := by
  have passed : ∀ t ∈ [Binary64.zero, .one], ¬ .infinity ≤ t := by decide
  obtain ⟨⟨b, checked, -, empties, takes⟩, -⟩ := passed_requests_pruned asked_hintedPair passed
  have numbers : ∀ t ∈ hintedPair.cache.times, t.isNaN = false := by decide +kernel
  have empty : b.queue = [] := empties.2 (.inr ⟨by decide, numbers⟩)
  exact ⟨asked_hintedPair, passed, b, checked, empty, takes empty (by decide) .zero⟩

/-- One request for what is no number, which an empty queue takes. -/
def wedged : Ledger where
  cache := ((Cache.ofCapacity 2).request .nan).2
  held := []

/-- A look-up past all requests leaves the queue as it is, and there is no getting past what is left. -/
theorem request_of_no_number_stays :
    Asked 2 [.nan] wedged ∧ (∀ t ∈ [Binary64.nan], ¬ .one ≤ t) ∧
      ∃ b, wedged.cache.checkOut .one = .ok (none, b) ∧ b.queue ≠ [] ∧ (b.request .infinity).1 = none := by
  have asked : Asked 2 [.nan] wedged := .move (m := .request .nan) .start trivial rfl
  exact ⟨asked, by decide, wedged.cache, rfl, by decide, by decide⟩

end Subtitles
