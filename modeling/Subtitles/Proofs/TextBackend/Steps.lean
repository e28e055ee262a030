/-
# Proofs.TextBackend.Steps: steps between the starts of events

`neighbour?` says where a step should lead, of the set of all starts: to the so-many-th smallest of
those well after the time, or to the so-many-th largest of those well before it. The backend walks a
list instead, from which it drops a start that repeats the one before it. In a store in order that
leaves each start once (`distinct_ascends`, `exists_of_mem_distinct`), so both walks, up and down, count
as they should (`key_stepFrom`). What starts there are, the packets tell (`start_mem_iff`).
-/
import Mathlib.Data.Finset.Sort
import Subtitles.Proofs.TextBackend.Resends
namespace Subtitles

set_option autoImplicit false

namespace Event

variable {es : List Event} {ts : List Binary64} {kept t : Binary64} {test : Binary64 → Bool}

/-- The starts that pass a test, by their keys. Both zeros have one key. -/
def startKeys (test : Binary64 → Bool) (es : List Event) : Finset Int :=
  (((es.map (·.start)).filter test).map Binary64.key).toFinset

/-- The `n`-th smallest of a set, counted from one. -/
def nthSmallest (s : Finset Int) (n : Nat) : Option Int := (s.sort (· ≤ ·))[n - 1]?

/-- The `n`-th largest of a set, counted from one. -/
def nthLargest (s : Finset Int) (n : Nat) : Option Int := (s.sort (· ≥ ·))[n - 1]?

/-- Where a step should lead. -/
def neighbour? (es : List Event) (pts : Binary64) (movement : Int32) : Option Int :=
  let n := movement.toInt
  if 0 < n then nthSmallest (startKeys (fun t => decide (pts + stepSlack < t)) es) n.toNat
  else if n < 0 then nthLargest (startKeys (fun t => decide (t < pts - stepSlack)) es) (-n).toNat
  else none

/-! ## Each start once -/

theorem distinctAfter_sublist (kept : Binary64) (ts : List Binary64) : (distinctAfter kept ts).Sublist ts := by
  induction ts generalizing kept with
  | nil => exact .slnil
  | cons t ts ih =>
      rw [distinctAfter]
      split
      · exact (ih kept).cons t
      · exact (ih t).cons_cons t

theorem distinct_sublist (ts : List Binary64) : (distinct ts).Sublist ts := by
  cases ts with
  | nil => exact .slnil
  | cons t ts => exact (distinctAfter_sublist t ts).cons_cons t

theorem distinctAfter_ascends (sorted : (kept :: ts).Pairwise (· ≤ ·)) :
    (kept :: distinctAfter kept ts).Pairwise (· < ·) := by
  induction ts generalizing kept with
  | nil => exact List.pairwise_singleton _ _
  | cons t ts ih =>
      obtain ⟨first, rest⟩ := List.pairwise_cons.1 sorted
      obtain ⟨le, later⟩ := List.forall_mem_cons.1 first
      rw [distinctAfter]
      split
      · exact ih (List.pairwise_cons.2 ⟨later, rest.of_cons⟩)
      · next other =>
          have before : kept < t :=
            ⟨le.1, Int.lt_iff_le_and_ne.2 ⟨le.2, fun same => other ⟨le.1.symm, same.symm⟩⟩⟩
          have ascends := ih rest
          refine List.pairwise_cons.2 ⟨List.forall_mem_cons.2 ⟨before, fun u member => ?_⟩, ascends⟩
          exact Binary64.lt_trans before (List.rel_of_pairwise_cons ascends member)

theorem distinct_ascends (sorted : ts.Pairwise (· ≤ ·)) : (distinct ts).Pairwise (· < ·) := by
  cases ts with
  | nil => exact .nil
  | cons t ts => exact distinctAfter_ascends sorted

theorem exists_of_mem_distinctAfter (member : t ∈ kept :: ts) :
    ∃ u ∈ kept :: distinctAfter kept ts, t = u ∨ t.Same u := by
  induction ts generalizing kept with
  | nil => exact ⟨t, member, .inl rfl⟩
  | cons v ts ih =>
      rcases List.mem_cons.1 member with rfl | member
      · exact ⟨t, List.mem_cons_self, .inl rfl⟩
      rw [distinctAfter]
      split
      · next same =>
          rcases List.mem_cons.1 member with rfl | later
          · exact ⟨kept, List.mem_cons_self, .inr same⟩
          · exact ih (List.mem_cons_of_mem _ later)
      · obtain ⟨u, there, equal⟩ := ih member
        exact ⟨u, List.mem_cons_of_mem _ there, equal⟩

/-- Of each time there is still one that is the same. -/
theorem exists_of_mem_distinct (member : t ∈ ts) : ∃ u ∈ distinct ts, t = u ∨ t.Same u := by
  cases ts with
  | nil => exact absurd member List.not_mem_nil
  | cons v ts => exact exists_of_mem_distinctAfter member

/-! ## Counting from either end -/

/-- A test that does not tell apart times that are the same passes the same times once the repetitions
are dropped. -/
theorem startKeys_eq (respects : ∀ t u : Binary64, t.Same u → test t = test u) (es : List Event) :
    startKeys test es = (((distinct (es.map (·.start))).filter test).map Binary64.key).toFinset := by
  ext k
  simp only [startKeys, List.mem_toFinset, List.mem_map (f := Binary64.key), List.mem_filter]
  constructor
  · rintro ⟨t, ⟨member, passes⟩, rfl⟩
    obtain ⟨u, there, rfl | same⟩ := exists_of_mem_distinct member
    · exact ⟨t, ⟨there, passes⟩, rfl⟩
    · exact ⟨u, ⟨there, respects t u same ▸ passes⟩, same.2.symm⟩
  · rintro ⟨t, ⟨member, passes⟩, rfl⟩
    exact ⟨t, ⟨(distinct_sublist _).subset member, passes⟩, rfl⟩

theorem keys_ascend (sorted : es.Pairwise Earlier) (test : Binary64 → Bool) :
    (((distinct (es.map (·.start))).filter test).map Binary64.key).Pairwise (· < ·) := by
  have starts : (es.map (·.start)).Pairwise (· ≤ ·) := List.pairwise_map.2 (sorted.imp fun earlier => earlier.le)
  exact List.pairwise_map.2 (((distinct_ascends starts).filter test).imp fun before => before.2)

theorem nthSmallest_startKeys (sorted : es.Pairwise Earlier)
    (respects : ∀ t u : Binary64, t.Same u → test t = test u) (n : Nat) :
    nthSmallest (startKeys test es) n = (((distinct (es.map (·.start))).filter test)[n - 1]?).map Binary64.key := by
  have ascend := keys_ascend sorted test
  rw [nthSmallest, startKeys_eq respects, (List.toFinset_sort _ (ascend.imp Int.ne_of_lt)).2
    (ascend.imp Int.le_of_lt), List.getElem?_map]

theorem nthLargest_startKeys (sorted : es.Pairwise Earlier)
    (respects : ∀ t u : Binary64, t.Same u → test t = test u) (n : Nat) :
    nthLargest (startKeys test es) n =
      (((distinct (es.map (·.start))).reverse.filter test)[n - 1]?).map Binary64.key := by
  have descend := List.pairwise_reverse.2 (keys_ascend sorted test)
  rw [nthLargest, startKeys_eq respects, ← List.toFinset_reverse, (List.toFinset_sort _ (descend.imp Int.ne_of_gt)).2
    (descend.imp Int.le_of_lt), ← List.getElem?_map, List.filter_reverse, List.map_reverse]

/-- A step leads where it should. -/
theorem key_stepFrom (sorted : es.Pairwise Earlier) (pts : Binary64) (movement : Int32) :
    (stepFrom es pts movement).map Binary64.key = neighbour? es pts movement := by
  have above : ∀ t u : Binary64, t.Same u → decide (pts + stepSlack < t) = decide (pts + stepSlack < u) :=
    fun t u same => decide_eq_decide.2 ⟨fun before => Binary64.lt_of_lt_of_same before same,
      fun before => Binary64.lt_of_lt_of_same before same.symm⟩
  have below : ∀ t u : Binary64, t.Same u → decide (t < pts - stepSlack) = decide (u < pts - stepSlack) :=
    fun t u same => decide_eq_decide.2 same.lt_iff
  simp only [stepFrom, neighbour?]
  split
  · exact (nthSmallest_startKeys sorted above _).symm
  · split
    · exact (nthLargest_startKeys sorted below _).symm
    · rfl

theorem exists_of_stepFrom {pts : Binary64} {movement : Int32} (found : stepFrom es pts movement = some t) :
    ∃ e ∈ es, e.start = t := by
  have started : t ∈ distinct (es.map (·.start)) := by
    simp only [stepFrom] at found
    split at found
    · exact (List.mem_filter.1 (List.mem_of_getElem? found)).1
    · split at found
      · exact List.mem_reverse.1 (List.mem_filter.1 (List.mem_of_getElem? found)).1
      · cases found
  exact List.mem_map.1 ((distinct_sublist _).subset started)

end Event

namespace TextBackend

open LoggedBackend (Served)

variable {b : TextBackend} {es : List Event} {e : Event} {ps : List Packet}

/-- Every event that is accepted comes from a packet with its start and its text. -/
theorem exists_of_mem_foldl_accept (member : e ∈ ps.foldl accept es) :
    e ∈ es ∨ ∃ p ∈ ps, readable? p = some (e.start, e.text) := by
  induction ps generalizing es with
  | nil => exact .inl member
  | cons p ps ih =>
      rcases ih member with before | ⟨q, later, read⟩
      · obtain ⟨unchanged, -⟩ | ⟨f, read, -, -, added⟩ := accept_cases es p
        · exact .inl (unchanged ▸ before)
        · rw [added] at before
          rcases List.mem_append.1 before with old | new
          · exact .inl old
          · rw [List.mem_singleton.1 new]
            exact .inr ⟨p, List.mem_cons_self, read⟩
      · exact .inr ⟨q, List.mem_cons_of_mem _ later, read⟩

/-- Events start when the packets that can be read do. -/
theorem start_mem_iff (numbers : ∀ p ∈ ps, ∀ t, p.pts = some t → t.isNaN = false) (stored : b.Stored (accepted ps))
    (t : Binary64) :
    (∃ e ∈ b.events, e.start.Same t) ↔ ∃ p ∈ ps, ∃ start text, readable? p = some (start, text) ∧ start.Same t := by
  constructor
  · rintro ⟨e, member, same⟩
    obtain before | ⟨p, sent, read⟩ := exists_of_mem_foldl_accept (stored.perm.mem_iff.1 member)
    · exact absurd before List.not_mem_nil
    · exact ⟨p, sent, e.start, e.text, read, same⟩
  · rintro ⟨p, sent, start, text, read, same⟩
    obtain ⟨e, member, starts, -⟩ := Event.isRepeated_iff.1 (knows_accepted numbers [] p sent start text read)
    exact ⟨e, stored.perm.mem_iff.2 member, starts.trans same⟩

/-- Whatever a backend was asked to do, and in whatever order its packets came, a step by `n` events finds the
`n`-th distinct start of an event well after the time, or well before it for a negative `n`, and answers with
the way there; where there is none, or `n` is 0, it is done. It changes nothing. -/
theorem step_finds_neighbour {b : LoggedBackend TextBackend} (served : Served {} b)
    (numbers : ∀ p ∈ decoded b.calls, ∀ t, p.pts = some t → t.isNaN = false) (pts : Binary64) (n : Int32) :
    (∀ t, (∃ e ∈ b.state.events, e.start.Same t) ↔
      ∃ p ∈ decoded b.calls, ∃ start text, readable? p = some (start, text) ∧ start.Same t) ∧
    ∃ target : Option Binary64,
      Backend.control (.step pts n) b.state = (target.elim .done fun t => .delta (t - pts), b.state) ∧
      (∀ t, target = some t → ∃ e ∈ b.state.events, e.start = t) ∧
      target.map Binary64.key = Event.neighbour? b.state.events pts n := by
  have stored := stored_of_served served numbers
  refine ⟨start_mem_iff numbers stored, Event.stepFrom b.state.events pts n, ?_, ?_, ?_⟩
  · show TextBackend.control (.step pts n) b.state = _
    rw [TextBackend.control]
    cases Event.stepFrom b.state.events pts n <;> rfl
  · exact fun t found => Event.exists_of_stepFrom found
  · exact Event.key_stepFrom stored.sorted pts n

/-- Of the starts 1, 1 and 2 the second largest before 3 is 1. -/
theorem step_finds_neighbour_latecomers :
    Served {} latecomersDecoded ∧
      (∀ p ∈ decoded latecomersDecoded.calls, ∀ t, p.pts = some t → t.isNaN = false) ∧
      ∃ target : Option Binary64,
        Backend.control (.step (.ofNat 3) (-2)) latecomersDecoded.state =
          (target.elim .done fun t => .delta (t - .ofNat 3), latecomersDecoded.state) ∧
        target.map Binary64.key = some (Binary64.ofNat 1).key := by
  have served : Served {} latecomersDecoded := Served.start.decodes latecomers
  have log : decoded latecomersDecoded.calls = latecomers := by decide +kernel
  have numbers : ∀ p ∈ decoded latecomersDecoded.calls, ∀ t, p.pts = some t → t.isNaN = false := by
    rw [log]
    decide +kernel
  obtain ⟨-, target, answer, -, found⟩ := step_finds_neighbour served numbers (.ofNat 3) (-2)
  have second : Event.neighbour? latecomersDecoded.state.events (.ofNat 3) (-2) = some (Binary64.ofNat 1).key := by
    rw [← Event.key_stepFrom (stored_of_served served numbers).sorted]
    decide +kernel
  exact ⟨served, numbers, target, answer, found.trans second⟩

end TextBackend
end Subtitles
