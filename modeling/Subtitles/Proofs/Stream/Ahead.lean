/-
# Proofs.Stream.Ahead: what the worker adds to the lane

A round of the worker puts the first time that waits behind what is rendered, with a frame: the one the
backend just answered, or, where that was told to show the same as the one before it, that one
(`Round.lane_cases`). Any other round leaves the lane as it is, and the backend decodes at most, or fails.
-/
import Subtitles.Proofs.Cache.Lane
import Subtitles.Proofs.Stream.Chained
import Subtitles.Proofs.Uses
namespace Subtitles

set_option autoImplicit false

namespace Stream

variable {σ : Type} [Backend σ] {s t : Stream σ} {lost : List Handle} {done : List (Binary64 × Frame)}
  {waiting : List Binary64}

/-- A round that adds a frame, and how it came about. -/
structure Adds (done : List (Binary64 × Frame)) (waiting : List Binary64) (pts : Binary64) (frame shown : Frame)
    (s t : Stream σ) : Prop where
  lane : t.cache.Lane (done ++ [(pts, shown)]) waiting
  answer : (Backend.render s.geometry pts s.backend.state).1 = .ok frame
  state : t.backend.state = (Backend.render s.geometry pts s.backend.state).2
  latest : t.backend.latest = some ⟨pts, s.geometry⟩
  shown : (∃ x, done.getLast? = some x ∧ shown = x.2) ∨
    (shown = frame ∧ (frame.changeId = 0 → ∀ x, done.getLast? = some x → s.backend.lastWas x.1 s.geometry = false))

/-- A round that leaves the lane as it is. -/
structure Keeps (done : List (Binary64 × Frame)) (waiting : List Binary64) (s t : Stream σ) : Prop where
  lane : t.cache.Lane done waiting
  state : ∃ us, t.backend.state = afterUses s.backend.state us
  latest : t.backend.latest = s.backend.latest

theorem carryOut_lane {job : Job} {pts : Binary64} (con : s.cache.Consistent lost) (lane : s.cache.Lane done waiting)
    (first : s.cache.firstPending = some job) (time : s.cache.pts? job.entry = some pts) :
    Keeps done waiting s (s.carryOut job pts) ∨
      ∃ rest frame shown, waiting = pts :: rest ∧ Adds done rest pts frame shown s (s.carryOut job pts) := by
  obtain ⟨hs, ws, upTo, looksDone, looksWaiting⟩ := lane.upTo con
  obtain ⟨ws, rfl, isLast⟩ := upTo.of_firstPending con first
  have last : (hs.getLast?.map s.cache.look) = done.getLast?.map fun x => (some x.1, some x.2) := by
    rw [← List.getLast?_map, looksDone, List.getLast?_map]
  obtain ⟨frame, d, answer, became, conD, queue, carries, rendered, showing⟩ |
    ⟨f, b, answer, became, -, queue, carries⟩ := carryOut_cases con first pts
  · right
    have distinct := con.nodup_queue
    have state := LoggedBackend.state_render .ahead s.geometry pts s.backend
    rw [upTo.queue] at distinct
    have same : ∀ h ∈ hs ++ ws, d.look h = s.cache.look h := by
      intro h member
      have queued : h ∈ d.queue := by
        rw [queue, upTo.queue]
        exact (List.append_subset.2 ⟨List.subset_append_left .., fun k member =>
          List.mem_append_right _ (List.mem_cons_of_mem _ member)⟩) member
      have other : some job.entry ≠ some h := by
        rintro ⟨⟩
        exact (List.nodup_cons.1 (List.nodup_middle.1 distinct)).1 member
      rw [Cache.look, Cache.look, carries.pts h queued, carries.frame h queued other]
    have here : job.entry ∈ d.queue := by
      rw [queue, upTo.queue]
      exact List.mem_append_right _ List.mem_cons_self
    obtain ⟨shown, shows⟩ : ∃ shown, d.frame? job.entry = some shown :=
      Option.isSome_iff_exists.1 ((Cache.isSome_frame? conD.accounted _).trans rendered)
    cases waiting with
    | nil => cases looksWaiting
    | cons p rest =>
        obtain ⟨looks, looksRest⟩ := List.cons.inj looksWaiting
        obtain rfl : pts = p := Option.some.inj (time.symm.trans (congrArg Prod.fst looks))
        refine ⟨rest, frame, shown, rfl, ?_⟩
        rw [became]
        refine ⟨?_, ?_, state, ?_, ?_⟩
        · have entry : d.look job.entry = (some pts, some shown) := by
            rw [Cache.look, carries.pts _ here, time, shows]
          have front := List.map_congr_left fun h member => same h (List.mem_append_left _ member)
          have back := List.map_congr_left fun h member => same h (List.mem_append_right _ member)
          show d.queue.map d.look = _
          rw [queue, upTo.queue, List.map_append, List.map_cons, front, back, entry, looksDone, looksRest, Cache.lane,
            List.map_append, List.append_assoc]
          rfl
        · rw [← LoggedBackend.answer_render .ahead, answer]
        · show (s.backend.render .ahead s.geometry pts).2.latest = _
          rw [LoggedBackend.render_of_ok answer]
        · obtain ⟨l, before, shared⟩ | ⟨own, told⟩ := shown_cases (shows.symm.trans showing)
          · rw [← isLast, before] at last
            obtain ⟨x, lastX, looks⟩ := Option.map_eq_some_iff.1 last.symm
            refine .inl ⟨x, lastX, Option.some.inj (shared.trans ?_)⟩
            exact (congrArg Prod.snd looks).symm
          · refine .inr ⟨Option.some.inj own, fun number x lastX => ?_⟩
            rw [lastX] at last
            obtain ⟨l, lastL, looks⟩ := Option.map_eq_some_iff.1 last
            exact told number l x.1 (isLast.trans lastL) (congrArg Prod.fst looks)
  · left
    rw [became]
    refine ⟨lane.of_carries carries queue, ⟨[.render s.geometry pts], LoggedBackend.state_render ..⟩, ?_⟩
    show (s.backend.render .ahead s.geometry pts).2.latest = _
    rw [LoggedBackend.render_of_error answer]

theorem Round.lane_cases (con : s.cache.Consistent lost) (lane : s.cache.Lane done waiting) (round : Round s t) :
    Keeps done waiting s t ∨ ∃ pts rest frame shown, waiting = pts :: rest ∧ Adds done rest pts frame shown s t := by
  cases round with
  | decode running waits =>
      refine .inl ⟨lane, ⟨s.pending.reverse.map .decode, ?_⟩, ?_⟩
      · rw [decodePending, LoggedBackend.foldl_decode]
        exact afterUses_decodes ..
      · rw [decodePending, LoggedBackend.foldl_decode]
  | @render job pts running decoded next =>
      obtain ⟨-, first, time⟩ := nextJob_spec next
      exact (carryOut_lane con lane first time).imp_right fun adds => ⟨pts, adds⟩

end Stream
end Subtitles
