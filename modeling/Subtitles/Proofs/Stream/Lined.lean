/-
# Proofs.Stream.Lined: numbers of frames rendered ahead

Frames rendered ahead are shown one after the other, so the number of each should tell what there is to tell
after the frames shown so far and those before it in the lane (`Told`). The worker sees to that: it shares
what is said to repeat its predecessor, and numbers other than 0 grow. The exception is a frame with the
number 0 behind a render that was not its predecessor's, and that is excused up to a time (`Lined.settle`).

What is shown on demand meanwhile has its own number, so the lane stays told (`Lined.demand`).
-/
import Subtitles.Proofs.Stream.Ahead
namespace Subtitles

set_option autoImplicit false

variable {limit pts : Binary64} {previous : Option Frame} {before : List Frame} {f : Frame}
  {x : Binary64 × Frame} {passed : Option (Binary64 × Frame)} {rest : List (Binary64 × Frame)}
  {waiting : List Binary64}

/-! ## Numbers in the lane -/

/-- The numbers of frames that come one after the other tell. The number 0 is excused up to a time. -/
def Told (limit : Binary64) : Option Frame → List Frame → List (Binary64 × Frame) → Prop
  | _, _, [] => True
  | previous, before, x :: rest =>
    Tells (x.1 ≤ limit) previous before x.2 ∧ Told limit (some x.2) (x.2 :: before) rest

/-- More frames were shown before, with other numbers. -/
theorem Told.mono {before' : List Frame} (told : Told limit previous before rest)
    (apart : ∀ e ∈ before', e ∈ before ∨ ∀ x ∈ rest, x.2.changeId ≠ 0 → e.changeId ≠ x.2.changeId) :
    Told limit previous before' rest := by
  induction rest generalizing previous before before' with
  | nil => trivial
  | cons x rest ih =>
      obtain ⟨tells, told⟩ := told
      refine ⟨tells.imp_right (.imp_left ?_), ih told fun e member => ?_⟩
      · rintro ⟨number, other⟩
        refine ⟨number, fun e member => ?_⟩
        rcases apart e member with old | other'
        · exact other e old
        · exact other' x List.mem_cons_self number
      · rcases List.mem_cons.1 member with rfl | member
        · exact .inl List.mem_cons_self
        · exact (apart e member).imp (List.mem_cons_of_mem _) fun other y there =>
            other y (List.mem_cons_of_mem _ there)

/-- One more frame comes behind. -/
theorem Told.concat (told : Told limit previous before rest)
    (tells : Tells (x.1 ≤ limit) ((rest.getLast?.map (·.2)).or previous) (before ++ rest.map (·.2)) x.2) :
    Told limit previous before (rest ++ [x]) := by
  induction rest generalizing previous before with
  | nil =>
      rw [List.map_nil, List.append_nil] at tells
      exact ⟨tells, trivial⟩
  | cons y rest ih =>
      refine ⟨told.1, ih told.2 ?_⟩
      obtain ⟨e, last, same⟩ | ⟨number, other⟩ | excuse := tells
      · refine .inl ⟨e, ?_, same⟩
        rw [← last, List.getLast?_cons]
        cases rest.getLast? <;> rfl
      · refine .inr (.inl ⟨number, fun e member => other e ?_⟩)
        simp only [List.mem_append, List.map_cons, List.mem_cons] at member ⊢
        tauto
      · exact .inr (.inr excuse)

namespace Stream

variable {σ : Type} [Backend σ] {fresh : σ} {s t : Stream σ} {lost : List Handle}

/-- The lane of a stream, behind the entry of the frame shown last if that one is from the lane: its numbers
tell after the frames shown so far, the latest first. All of them were drawn. -/
structure Lined (fresh : σ) (limit : Binary64) (before : List Frame) (passed : Option (Binary64 × Frame))
    (rest : List (Binary64 × Frame)) (waiting : List Binary64) (s : Stream σ) : Prop where
  lane : s.cache.Lane (passed.toList ++ rest) waiting
  told : Told limit (passed.map (·.2)) before rest
  latest : ∀ x, passed = some x → before.head? = some x.2
  drawn : ∃ us, s.backend.state = afterUses fresh us ∧ ∀ f ∈ before ++ rest.map (·.2), Drawn fresh us f

namespace Lined

variable (lined : Lined fresh limit before passed rest waiting s)
include lined

/-- Nothing changes but the cache, and its lane is the same. -/
theorem of_lane (lane : t.cache.Lane (passed.toList ++ rest) waiting)
    (state : ∃ us, t.backend.state = afterUses s.backend.state us) :
    Lined fresh limit before passed rest waiting t := by
  obtain ⟨us, old, drawn⟩ := lined.drawn
  obtain ⟨newer, new⟩ := state
  refine ⟨lane, lined.told, lined.latest, newer ++ us, ?_, fun f member => (drawn f member).later newer⟩
  rw [new, old, afterUses_append]

/-- The worker's frame tells, or is excused. -/
theorem adds (grow : NumbersGrow fresh) {frame shown : Frame} {left : List Binary64}
    (adds : Adds (passed.toList ++ rest) left pts frame shown s t)
    (excused : pts ≤ limit ∨ ∃ x, (passed.toList ++ rest).getLast? = some x ∧ s.backend.lastWas x.1 s.geometry = true) :
    Lined fresh limit before passed (rest ++ [(pts, shown)]) left t := by
  obtain ⟨us, state, drawn⟩ := lined.drawn
  have answer := adds.answer
  rw [state] at answer
  have last : (passed.toList ++ rest).getLast?.map (·.2) = (rest.getLast?.map (·.2)).or (passed.map (·.2)) := by
    rw [List.getLast?_append]
    cases rest.getLast? <;> cases passed <;> rfl
  have tells : Tells (pts ≤ limit) ((rest.getLast?.map (·.2)).or (passed.map (·.2))) (before ++ rest.map (·.2))
      shown := by
    obtain ⟨x, isLast, rfl⟩ | ⟨rfl, told⟩ := adds.shown
    · rw [isLast] at last
      exact .inl ⟨x.2, last.symm, rfl, rfl⟩
    · by_cases number : shown.changeId = 0
      · obtain excused | ⟨x, isLast, was⟩ := excused
        · exact .inr (.inr ⟨number, excused⟩)
        · exact absurd (was.symm.trans (told number x isLast)) nofun
      · exact grow.tells answer number drawn
  have now : Drawn fresh (.render s.geometry pts :: us) shown := by
    obtain ⟨x, isLast, rfl⟩ | ⟨rfl, -⟩ := adds.shown
    · refine Drawn.later (drawn _ ?_) [_]
      rcases List.mem_append.1 (List.mem_of_getLast? isLast) with inPassed | inRest
      · exact List.mem_append_left _ (List.mem_of_head? (lined.latest x (Option.mem_toList.1 inPassed)))
      · exact List.mem_append_right _ (List.mem_map_of_mem inRest)
    · exact drawn_now answer
  refine ⟨?_, lined.told.concat tells, lined.latest, .render s.geometry pts :: us, ?_, fun f member => ?_⟩
  · rw [← List.append_assoc]
    exact adds.lane
  · rw [adds.state, state]
    rfl
  · rw [List.map_append, ← List.append_assoc] at member
    rcases List.mem_append.1 member with old | new
    · exact (drawn f old).later [_]
    · rw [List.mem_singleton.1 new]
      exact now

/-- One time waits at most. It is rendered, unless the worker is gone or fails. -/
theorem settle (grow : NumbersGrow fresh) (con : s.cache.Consistent lost)
    (few : ∀ p ∈ waiting, waiting = [p] ∧ (p ≤ limit ∨
      ∃ x, (passed.toList ++ rest).getLast? = some x ∧ s.backend.lastWas x.1 s.geometry = true)) :
    (Lined fresh limit before passed rest waiting s.settle ∧ s.settle.backend.latest = s.backend.latest) ∨
      ∃ p shown, waiting = [p] ∧ Lined fresh limit before passed (rest ++ [(p, shown)]) [] s.settle ∧
        s.settle.backend.latest = some ⟨p, s.geometry⟩ := by
  have kept : (∃ lost, s.settle.cache.Consistent lost) ∧ s.settle.geometry = s.geometry ∧
      ((Lined fresh limit before passed rest waiting s.settle ∧ s.settle.backend.latest = s.backend.latest) ∨
        ∃ p shown, waiting = [p] ∧ Lined fresh limit before passed (rest ++ [(p, shown)]) [] s.settle ∧
          s.settle.backend.latest = some ⟨p, s.geometry⟩) := by
    refine settle_induction (P := fun t => (∃ lost, t.cache.Consistent lost) ∧ t.geometry = s.geometry ∧
      ((Lined fresh limit before passed rest waiting t ∧ t.backend.latest = s.backend.latest) ∨
        ∃ p shown, waiting = [p] ∧ Lined fresh limit before passed (rest ++ [(p, shown)]) [] t ∧
          t.backend.latest = some ⟨p, s.geometry⟩)) ⟨⟨lost, con⟩, rfl, .inl ⟨lined, rfl⟩⟩ ?_
    rintro t t' ⟨⟨lost, con⟩, geometry, now⟩ round
    refine ⟨round.consistent con, (congrArg Stream.geometry round.frame).trans geometry, ?_⟩
    obtain ⟨lined, latest⟩ | ⟨p, shown, alone, lined, latest⟩ := now
    · obtain keeps | ⟨p, left, frame, shown, parts, adds⟩ := round.lane_cases con lined.lane
      · exact .inl ⟨lined.of_lane keeps.lane keeps.state, keeps.latest.trans latest⟩
      · obtain ⟨alone, excused⟩ := few p (parts ▸ List.mem_cons_self)
        obtain rfl : left = [] := (List.cons.inj (parts.symm.trans alone)).2
        refine .inr ⟨p, shown, alone, lined.adds grow adds (excused.imp_right ?_), geometry ▸ adds.latest⟩
        rintro ⟨x, isLast, was⟩
        refine ⟨x, isLast, ?_⟩
        unfold LoggedBackend.lastWas at was ⊢
        rwa [latest, geometry]
    · obtain keeps | ⟨_, _, _, _, parts, -⟩ := round.lane_cases con lined.lane
      · exact .inr ⟨p, shown, alone, lined.of_lane keeps.lane keeps.state, keeps.latest.trans latest⟩
      · cases parts
  exact kept.2.2

/-- What is rendered for the frame itself is told by its own number. -/
theorem demand (grow : NumbersGrow fresh) {g : Geometry} (onDemand : passed = none)
    (answer : (Backend.render g pts s.backend.state).1 = .ok f) (lane : t.cache.Lane rest waiting)
    (state : t.backend.state = (Backend.render g pts s.backend.state).2) :
    Tells True before.head? before f ∧ Lined fresh limit (f :: before) none rest waiting t := by
  obtain ⟨us, old, drawn⟩ := lined.drawn
  rw [old] at answer state
  have answer : renderAfter fresh us g pts = .ok f := answer
  refine ⟨?_, lane, ?_, nofun, .render g pts :: us, state, fun e member => ?_⟩
  · by_cases number : f.changeId = 0
    · exact .inr (.inr ⟨number, trivial⟩)
    · exact grow.tells answer number fun e member => drawn e (List.mem_append_left _ member)
  · have told := lined.told
    rw [onDemand] at told
    refine told.mono fun e member => ?_
    rcases List.mem_cons.1 member with rfl | old
    · refine .inr fun x there number same => ?_
      have bound := grow us g pts e answer (same ▸ number) x.2
        (drawn x.2 (List.mem_append_right _ (List.mem_map_of_mem there)))
      omega
    · exact .inl old
  · rcases List.mem_cons.1 member with rfl | old
    · exact drawn_now answer
    · exact (drawn e old).later [_]

/-- The first frame of the lane is shown. -/
theorem hit {later : List (Binary64 × Frame)} (parts : rest = x :: later) (lane : t.cache.Lane rest waiting)
    (state : t.backend.state = s.backend.state) :
    Tells (x.1 ≤ limit) before.head? before x.2 ∧ Lined fresh limit (x.2 :: before) (some x) later waiting t := by
  subst parts
  obtain ⟨us, old, drawn⟩ := lined.drawn
  obtain ⟨tells, told⟩ := lined.told
  refine ⟨?_, lane, told, fun y same => Option.some.inj same ▸ rfl, us, state.trans old, fun f member => ?_⟩
  · refine tells.imp_left fun ⟨e, previous, same⟩ => ⟨e, ?_, same⟩
    obtain ⟨y, there, rfl⟩ := Option.map_eq_some_iff.1 previous
    exact lined.latest y there
  · exact drawn f (List.perm_middle.mem_iff.2 member)

/-- The frame shown last is shown again. -/
theorem stay (excused : Prop) (same : passed = some x) (lane : t.cache.Lane (x :: rest) waiting)
    (state : t.backend.state = s.backend.state) :
    Tells excused before.head? before x.2 ∧ Lined fresh limit (x.2 :: before) (some x) rest waiting t := by
  obtain ⟨us, old, drawn⟩ := lined.drawn
  have latest := lined.latest x same
  have shown : ∀ e ∈ x.2 :: before, e ∈ before :=
    List.forall_mem_cons.2 ⟨List.mem_of_head? latest, fun _ member => member⟩
  refine ⟨.inl ⟨x.2, latest, rfl, rfl⟩, lane, ?_, fun y here => Option.some.inj here ▸ rfl, us, state.trans old,
    fun f member => ?_⟩
  · have told := lined.told
    rw [same] at told
    exact told.mono fun e member => .inl (shown e member)
  · rcases List.mem_append.1 member with before | inLane
    · exact drawn f (List.mem_append_left _ (shown f before))
    · exact drawn f (List.mem_append_right _ inLane)

end Lined
end Stream
end Subtitles
