/-
# Proofs.Cache.Lane: the queue as it looks from outside

From outside an entry is a time, and perhaps a frame. What is rendered comes first in the queue, so the
queue looks like a lane: frames with their times and, behind them, times that wait (`Lane`). Handles are gone
then. A request adds a time at the end (`Lane.request_cases`), a look-up takes from the front what is too
early and finds what is first then (`Lane.checkOut`), and a reference given back changes nothing.
-/
import Subtitles.Proofs.Cache.Progress
import Subtitles.Proofs.Cache.Times
namespace Subtitles

set_option autoImplicit false

namespace Cache

variable {c b : Cache} {held : List Handle} {h : Handle} {pts : Binary64} {done : List (Binary64 × Frame)}
  {waiting : List Binary64}

/-- The time of an entry, and what it shows. -/
def look (c : Cache) (h : Handle) : Option Binary64 × Option Frame := (c.pts? h, c.frame? h)

/-- How a frame for a time looks, and how a time looks that waits. -/
def lane (done : List (Binary64 × Frame)) (waiting : List Binary64) : List (Option Binary64 × Option Frame) :=
  done.map (fun x => (some x.1, some x.2)) ++ waiting.map fun p => (some p, none)

theorem filterMap_lane (done : List (Binary64 × Frame)) (waiting : List Binary64) :
    (lane done waiting).filterMap Prod.fst = done.map (·.1) ++ waiting := by
  rw [lane, List.filterMap_append, List.filterMap_map, List.filterMap_map]
  simp

theorem filterMap_pts? (hs : List Handle) : hs.filterMap c.pts? = (hs.map c.look).filterMap Prod.fst := by
  rw [List.filterMap_map]
  rfl

def Lane (c : Cache) (done : List (Binary64 × Frame)) (waiting : List Binary64) : Prop :=
  c.queue.map c.look = lane done waiting

theorem lane_of_queue_nil (empty : c.queue = []) : c.Lane [] [] := by
  rw [Lane, empty]
  rfl

namespace Lane

variable (lane : c.Lane done waiting)
include lane

theorem upTo (con : c.Consistent held) : ∃ hs ws, c.RenderedUpTo hs ws ∧
    hs.map c.look = done.map (fun x => (some x.1, some x.2)) ∧ ws.map c.look = waiting.map fun p => (some p, none) := by
  obtain ⟨hs, ws, queue, first, second⟩ := List.map_eq_append_iff.1 lane
  refine ⟨hs, ws, ⟨queue, fun h member => ?_, fun h member => ?_⟩, first, second⟩
  · obtain ⟨x, -, looks⟩ := List.mem_map.1 (first ▸ List.mem_map_of_mem member)
    have shown : some x.2 = c.frame? h := congrArg Prod.snd looks
    rw [← isSome_frame? con.accounted, ← shown]
    rfl
  · obtain ⟨p, -, looks⟩ := List.mem_map.1 (second ▸ List.mem_map_of_mem member)
    have nothing : none = c.frame? h := congrArg Prod.snd looks
    rw [← isSome_frame? con.accounted, ← nothing]
    rfl

theorem times : c.times = done.map (·.1) ++ waiting := by
  rw [Cache.times, filterMap_pts? c.queue, show c.queue.map c.look = Cache.lane done waiting from lane, filterMap_lane]

/-- Where all that is queued is rendered, no time waits. -/
theorem waiting_eq_nil (con : c.Consistent held) (rendered : ∀ h ∈ c.queue, c.isRendered h = true) : waiting = [] := by
  obtain ⟨hs, ws, upTo, -, looks⟩ := lane.upTo con
  cases ws with
  | nil => exact List.map_eq_nil_iff.1 looks.symm
  | cons h ws =>
      have waits := upTo.waiting h List.mem_cons_self
      rw [rendered h (upTo.queue ▸ List.mem_append_right _ List.mem_cons_self)] at waits
      cases waits

/-- Where nothing of the queue changes, the lane does not either. -/
theorem of_same (queue : b.queue = c.queue) (same : ∀ h ∈ c.queue, b.look h = c.look h) : b.Lane done waiting := by
  rw [Lane, queue, List.map_congr_left same]
  exact lane

theorem of_carries (carries : Carries none c b) (queue : b.queue = c.queue) : b.Lane done waiting := by
  refine lane.of_same queue fun h member => ?_
  rw [look, look, carries.pts h (queue ▸ member), carries.frame h (queue ▸ member) nofun]

/-- A time is queued behind all that are earlier; one that is not later than all is refused. -/
theorem request_cases (con : c.Consistent held) (room : c.times.length < c.capacity) (pts : Binary64) :
    ((∀ p ∈ c.times, p < pts) ∧ (c.request pts).2.Lane done (waiting ++ [pts])) ∨
      ((∃ p ∈ c.times, ¬ p < pts) ∧ (c.request pts).2.Lane done waiting) := by
  obtain ⟨con', ⟨-, arena, queue⟩ | ⟨new, -, fresh, queue, entries⟩⟩ := con.request pts
  · have carries : Carries none c (c.request pts).2 :=
      con.carries_of_leaves con' (arena ▸ .refl _) fun h member => queue ▸ member
    refine .inr ⟨?_, lane.of_carries carries queue⟩
    by_contra later
    push Not at later
    have grown := (con.times_request room later).1
    rw [times_congr queue carries.pts] at grown
    exact absurd (congrArg List.length grown) (by simp)
  · have entry : ∀ k ∈ c.queue, Cache.entry? (c.request pts).2 k = c.entry? k := by
      intro k member
      obtain ⟨e, found⟩ := con.live_of_queued member
      rw [entries k, if_neg]
      rintro rfl
      exact absurd (found.symm.trans fresh) nofun
    have same : ∀ k ∈ c.queue, Cache.look (c.request pts).2 k = c.look k := by
      intro k member
      have queued : k ∈ (c.request pts).2.queue := queue ▸ List.mem_append_left _ member
      have state : Cache.isRendered (c.request pts).2 k = c.isRendered k := by
        rw [isRendered, isRendered, entry k member]
      rw [look, look, pts?, pts?, entry k member]
      cases rendered : c.isRendered k with
      | true => rw [(con.of_rendered_request pts queued (state.trans rendered)).2.2]
      | false => rw [frame?_eq_none rendered, frame?_eq_none (state.trans rendered)]
    have last : Cache.look (c.request pts).2 new = (some pts, none) := by
      have found : Cache.entry? (c.request pts).2 new = some ⟨pts, 1, .pending⟩ := (entries new).trans (if_pos rfl)
      rw [look, pts?_eq found, frame?_eq_none (isRendered_eq found)]
    refine .inl ⟨fun p member => ?_, ?_⟩
    · obtain ⟨k, queued, time⟩ := List.mem_filterMap.1 member
      have sorted := con'.sorted
      rw [queue, List.pairwise_append] at sorted
      obtain ⟨p', q, timeK, timeNew, before⟩ := sorted.2.2 k queued new (List.mem_singleton_self new)
      have timeK' : c.pts? k = some p' := (congrArg Prod.fst (same k queued)).symm.trans timeK
      have timeNew' : some pts = some q := (congrArg Prod.fst last).symm.trans timeNew
      rw [Option.some.inj (time.symm.trans timeK'), Option.some.inj timeNew']
      exact before
    · rw [Lane, queue, List.map_append, List.map_congr_left same, show c.queue.map c.look = _ from lane,
        List.map_singleton, last, Cache.lane, Cache.lane, List.map_append, List.append_assoc]
      rfl

/-- What a look-up leaves is what is not too early. -/
theorem checkOut {early late : List (Binary64 × Frame)} {hit : Option Handle} (con : c.Consistent held)
    (checked : c.checkOut pts = .ok (hit, b)) (parts : done = early ++ late) (before : ∀ x ∈ early, x.1 < pts)
    (after : ∀ p ∈ late.map (·.1) ++ waiting, ¬ p < pts) : b.Lane late waiting := by
  obtain ⟨hit', b', checked', conB, leaves, queue, -⟩ := con.checkOut pts
  obtain ⟨rfl, rfl⟩ := Prod.mk.inj (Except.ok.inj (checked'.symm.trans checked))
  have split : c.queue.map c.look = early.map (fun x => (some x.1, some x.2)) ++ Cache.lane late waiting := by
    rw [show c.queue.map c.look = _ from lane, parts, Cache.lane, List.map_append, List.append_assoc]
    rfl
  obtain ⟨es, ls, parts', gone, left⟩ := List.map_eq_append_iff.1 split
  have first : ∀ h ∈ es, c.isBefore pts h = true := by
    intro h member
    obtain ⟨x, there, looks⟩ := List.mem_map.1 (gone ▸ List.mem_map_of_mem member)
    have time : some x.1 = c.pts? h := congrArg Prod.fst looks
    rw [isBefore, ← time]
    exact decide_eq_true (before x there)
  have second : ∀ h ∈ ls, c.isBefore pts h = false := by
    intro h member
    have times : ls.filterMap c.pts? = late.map (·.1) ++ waiting := by
      rw [filterMap_pts?, left, filterMap_lane]
    obtain ⟨p, time⟩ := con.pts_queued (parts' ▸ List.mem_append_right es member)
    rw [isBefore, time]
    exact decide_eq_false (after p (times ▸ List.mem_filterMap.2 ⟨h, member, time⟩))
  have rest : b'.queue = ls := by
    rw [queue, parts', List.dropWhile_append_of_pos first]
    cases ls with
    | nil => rfl
    | cons h ls => exact List.dropWhile_cons_of_neg (by simp [second h List.mem_cons_self])
  have carries : Carries none c b' := con.carries_of_leaves conB leaves fun h member => by
    rw [parts']
    exact List.mem_append_right es (rest ▸ member)
  have same : ∀ h ∈ ls, b'.look h = c.look h := by
    intro h member
    rw [look, look, carries.pts h (rest ▸ member), carries.frame h (rest ▸ member) (Option.some_ne_none h).symm]
  rw [Lane, rest, List.map_congr_left same, left]

omit lane in
/-- What is shown by the first entry comes first in the lane. -/
theorem head (lane : c.Lane done waiting) {f : Frame} (first : c.queue.head? = some h) (shown : c.frame? h = some f) :
    ∃ p rest, done = (p, f) :: rest ∧ c.pts? h = some p := by
  obtain ⟨queue, parts⟩ := List.head?_eq_some_iff.1 first
  rw [Lane, parts, List.map_cons, Cache.lane] at lane
  cases done with
  | nil =>
      cases waiting with
      | nil => cases lane
      | cons p rest =>
          have nothing : c.frame? h = none := congrArg Prod.snd (List.cons.inj lane).1
          exact absurd (shown.symm.trans nothing) nofun
  | cons x rest =>
      obtain ⟨time, frame⟩ := Prod.mk.inj (List.cons.inj lane).1
      obtain rfl := Option.some.inj (shown.symm.trans frame)
      exact ⟨x.1, rest, rfl, time⟩

end Lane
end Cache
end Subtitles
