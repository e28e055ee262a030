/-
# Proofs.TextBackend.Changes: what its change numbers tell

A render with the number 0 has the key of the one before it. Events keep their numbers for good,
so the two are of the same events, and show the same (`soundChanges`). Where there was none before
it, its number is not 0 (`firstChanges`); and other numbers than 0 are counted up, so none of them
is given twice (`distinctChanges`).
-/
import Mathlib.Data.List.Nodup
import Subtitles.Proofs.Calls
import Subtitles.Proofs.TextBackend.Drawing
namespace Subtitles

set_option autoImplicit false

namespace TextBackend

open LoggedBackend (Served SoundChanges FirstChanges DistinctChanges)

variable {b : TextBackend} {g : Geometry} {pts : Binary64} {f : Frame}

/-! ## Numbers of events -/

/-- Events have numbers of their own, below the next one. -/
structure Numbered (b : TextBackend) : Prop where
  distinct : (b.events.map (·.id)).Nodup
  below : ∀ e ∈ b.events, e.id < b.nextId

theorem Numbered.decode (numbered : b.Numbered) (p : Packet) : (b.decode p).Numbered := by
  obtain same | ⟨e, -, number, became⟩ := decode_cases p b
  · rwa [same]
  · rw [became]
    have perm := Event.insert_perm e b.events
    refine ⟨(perm.map (·.id)).nodup_iff.2 (List.nodup_cons.2 ⟨fun member => ?_, numbered.distinct⟩),
      fun e' member => ?_⟩
    · obtain ⟨old, there, same⟩ := List.mem_map.1 member
      have below := numbered.below old there
      rw [show old.id = e.id from same, number] at below
      exact Nat.lt_irrefl _ below
    · rcases List.mem_cons.1 (perm.mem_iff.1 member) with rfl | there
      · show e'.id < b.nextId + 1
        omega
      · exact Nat.lt_succ_of_lt (numbered.below e' there)

/-- The events of a list are told by their numbers. -/
theorem Numbered.eq_of_ids (numbered : b.Numbered) {es fs : List Event} (left : es ⊆ b.events)
    (right : fs ⊆ b.events) (same : es.map (·.id) = fs.map (·.id)) : es = fs := by
  induction es generalizing fs with
  | nil => exact (List.map_eq_nil_iff.1 same.symm).symm
  | cons e es ih =>
      cases fs with
      | nil => exact absurd same (by simp)
      | cons f fs =>
          obtain ⟨head, tail⟩ := List.cons.inj same
          have first : e = f := List.inj_on_of_nodup_map numbered.distinct
            (left List.mem_cons_self) (right List.mem_cons_self) head
          rw [first, ih (fun _ member => left (List.mem_cons_of_mem _ member))
            (fun _ member => right (List.mem_cons_of_mem _ member)) tail]

/-! ## Keys -/

/-- The key noted last is of events still there; the last frame shows them, unless that render
ran into a fault. -/
structure Noted (b : LoggedBackend TextBackend) : Prop where
  numbered : b.state.Numbered
  last : ∀ k, b.state.lastKey = some k → ∃ es, es ⊆ b.state.events ∧ es.map (·.id) = k.active ∧
    ∀ parts, drawn es k.geometry k.atTop = .ok parts →
      b.latest ≠ none ∧ ∀ before, lastFrame? b.calls = some before → MadeOf before parts

theorem Noted.decode {b : LoggedBackend TextBackend} (noted : Noted b) (p : Packet) : Noted (b.decode p) := by
  have grown : b.state.events ⊆ (b.state.decode p).events ∧ (b.state.decode p).lastKey = b.state.lastKey := by
    obtain same | ⟨e, -, -, became⟩ := decode_cases p b.state
    · rw [same]
      exact ⟨List.Subset.refl _, rfl⟩
    · rw [became]
      exact ⟨fun f member => (Event.insert_perm e _).mem_iff.2 (List.mem_cons_of_mem _ member), rfl⟩
  refine ⟨noted.numbered.decode p, ?_⟩
  intro k last
  obtain ⟨es, there, ids, shown⟩ := noted.last k (grown.2.symm.trans last)
  exact ⟨es, fun f member => grown.1 (there member), ids, shown⟩

theorem Noted.render {b : LoggedBackend TextBackend} (noted : Noted b) (purpose : Purpose) (g : Geometry)
    (pts : Binary64) : Noted (b.render purpose g pts).2 := by
  obtain ⟨draws, faults, changes, became⟩ := render_cases b.state g pts
  have state : (b.render purpose g pts).2.state = (b.state.render g pts).2 := by
    obtain ⟨frame, -, rendered⟩ | ⟨fault, -, rendered⟩ := b.render_cases purpose g pts <;> rw [rendered] <;> rfl
  rw [became] at state
  refine ⟨?_, fun k last => ⟨b.state.active pts, ?_, ?_, ?_⟩⟩
  · rw [state]
    exact ⟨noted.numbered.distinct, noted.numbered.below⟩
  · rw [state]
    exact (Event.visibleAt_sublist pts _).subset
  · rw [state] at last
    rw [← Option.some.inj last]
    rfl
  · rw [state] at last
    obtain rfl := Option.some.inj last
    intro parts given
    obtain ⟨frame, answer, rendered⟩ | ⟨fault, answer, rendered⟩ := b.render_cases purpose g pts
    · rw [rendered]
      refine ⟨nofun, fun before logged => ?_⟩
      obtain rfl := Option.some.inj logged
      obtain ⟨parts', shown, made⟩ := draws frame (congrArg Prod.fst answer)
      rw [Except.ok.inj (given.symm.trans shown)]
      exact made
    · exact absurd (given.symm.trans (faults fault (congrArg Prod.fst answer))) nofun

/-- A command moves the lines at most. -/
theorem control_frame (c : Command) (b : TextBackend) :
    (b.control c).2 = { b with atTop := (b.control c).2.atTop } := by
  cases c with
  | step pts movement =>
      simp only [control]
      split <;> rfl
  | _ => rfl

theorem noted_of_served {fresh : TextBackend} (numbered : fresh.Numbered) (unused : fresh.lastKey = none)
    {b : LoggedBackend TextBackend} (served : Served fresh b) : Noted b := by
  induction served with
  | start => exact ⟨numbered, fun k last => absurd (unused.symm.trans last) nofun⟩
  | decode p _ ih => exact ih.decode p
  | render purpose g pts _ ih => exact ih.render purpose g pts
  | text pts _ ih => exact ⟨ih.numbered, ih.last⟩
  | reset _ ih => exact ⟨⟨ih.numbered.distinct, ih.numbered.below⟩, nofun⟩
  | select on _ ih => exact ⟨ih.numbered, ih.last⟩
  | @control b c _ ih =>
      have became : (b.control c).2.state = { b.state with atTop := (b.state.control c).2.atTop } :=
        control_frame c b.state
      refine ⟨?_, ?_⟩
      · rw [became]
        exact ⟨ih.numbered.distinct, ih.numbered.below⟩
      · rw [became]
        exact ih.last

theorem changeId_render (answer : (b.render g pts).1 = .ok f) :
    f.changeId = (b.noteKey (b.key g pts)).1 := by
  obtain ⟨parts, -, rfl⟩ := of_map_eq_ok answer
  rfl

/-- The number 0 is given where the key is the one noted last. -/
theorem noteKey_eq_zero {k : TextKey} (number : (b.noteKey k).1 = 0) :
    ∃ l, b.lastKey = some l ∧ l.Same k := by
  unfold noteKey at number
  split at number
  · next last => simpa [Option.any_eq_true] using last
  · exact absurd number (Nat.succ_ne_zero _)

/-- A render that is given the number 0 draws the events of the key noted last. -/
theorem noted_of_changeId_eq_zero {b : LoggedBackend TextBackend} (noted : Noted b) {purpose : Purpose}
    (answer : (b.render purpose g pts).1 = .ok f) (number : f.changeId = 0) :
    ∃ parts, MadeOf f parts ∧ b.latest ≠ none ∧ ∀ before, lastFrame? b.calls = some before → MadeOf before parts := by
  have answer' : (b.state.render g pts).1 = .ok f := by
    obtain ⟨frame, there, rendered⟩ | ⟨fault, there, rendered⟩ := b.render_cases purpose g pts
    · rw [rendered] at answer
      rw [← Except.ok.inj answer]
      exact congrArg Prod.fst there
    · rw [rendered] at answer
      exact absurd answer nofun
  rw [changeId_render answer'] at number
  obtain ⟨k, last, ids, geometry, top⟩ := noteKey_eq_zero number
  obtain ⟨parts, shown, made⟩ := (render_cases b.state g pts).1 f answer'
  obtain ⟨es, there, ids', shown'⟩ := noted.last k last
  have same : es = b.state.active pts :=
    noted.numbered.eq_of_ids there (Event.visibleAt_sublist pts _).subset (ids'.trans ids)
  refine ⟨parts, made, shown' parts ?_⟩
  rw [same, drawn_congr geometry, top]
  exact shown

/-- A frame with the number 0 shows what the frame before it showed. -/
theorem soundChanges {fresh : TextBackend} (numbered : fresh.Numbered) (unused : fresh.lastKey = none) :
    SoundChanges fresh := by
  intro b served purpose g pts frame answer unchanged before logged
  have number : frame.changeId = 0 := by simpa [Frame.isUnchanged] using unchanged
  obtain ⟨parts, made, -, shown⟩ := noted_of_changeId_eq_zero (noted_of_served numbered unused served) answer number
  exact made.sameContent (shown before logged)

/-- After a reset, and at first, there is no key to repeat; nor is there one after nothing but faults,
since a key that repeats theirs runs into the same fault. -/
theorem firstChanges {fresh : TextBackend} (numbered : fresh.Numbered) (unused : fresh.lastKey = none) :
    FirstChanges fresh := by
  intro b served none purpose g pts frame answer number
  obtain ⟨-, -, compared, -⟩ := noted_of_changeId_eq_zero (noted_of_served numbered unused served) answer number
  exact compared none

/-! ## Numbers of frames -/

/-- The numbers given so far are up to `changes`, and none but 0 is given twice. -/
structure Counted (b : LoggedBackend TextBackend) : Prop where
  below : ∀ f ∈ frames b.calls, f.changeId ≤ b.state.changes
  distinct : ∀ f ∈ frames b.calls, ∀ f' ∈ frames b.calls, f.changeId = f'.changeId → f.changeId ≠ 0 → f = f'

theorem Counted.of_same {b b' : LoggedBackend TextBackend} (counted : Counted b)
    (drawn : frames b'.calls = frames b.calls) (changes : b.state.changes ≤ b'.state.changes) : Counted b' := by
  constructor
  · rw [drawn]
    exact fun f member => Nat.le_trans (counted.below f member) changes
  · rw [drawn]
    exact counted.distinct

/-- A number is 0 or the next one. -/
theorem noteKey_cases (b : TextBackend) (k : TextKey) :
    ((b.noteKey k).1 = 0 ∧ (b.noteKey k).2.changes = b.changes) ∨
      ((b.noteKey k).1 = b.changes + 1 ∧ (b.noteKey k).2.changes = b.changes + 1) := by
  unfold noteKey
  split
  · exact .inl ⟨rfl, rfl⟩
  · exact .inr ⟨rfl, rfl⟩

/-- One more frame, with the number that is due. -/
theorem Counted.draw {b b' : LoggedBackend TextBackend} (counted : Counted b)
    (drawn : frames b'.calls = f :: frames b.calls)
    (number : (f.changeId = 0 ∧ b'.state.changes = b.state.changes) ∨
      (f.changeId = b.state.changes + 1 ∧ b'.state.changes = b.state.changes + 1)) : Counted b' := by
  have apart : ∀ k ∈ frames b.calls, f.changeId = k.changeId → f.changeId = 0 := by
    intro k member equal
    have below := counted.below k member
    omega
  constructor
  · rw [drawn]
    intro k member
    rcases List.mem_cons.1 member with rfl | old
    · omega
    · have below := counted.below k old
      omega
  · rw [drawn]
    intro k member k' member' equal unlike
    rcases List.mem_cons.1 member with rfl | old <;> rcases List.mem_cons.1 member' with rfl | old'
    · rfl
    · exact absurd (apart k' old' equal) unlike
    · exact absurd (equal.trans (apart k old equal.symm)) unlike
    · exact counted.distinct k old k' old' equal unlike

theorem Counted.render {b : LoggedBackend TextBackend} (counted : Counted b) (purpose : Purpose) (g : Geometry)
    (pts : Binary64) : Counted (b.render purpose g pts).2 := by
  have numbered := noteKey_cases b.state (b.state.key g pts)
  obtain ⟨frame, answer, rendered⟩ | ⟨fault, -, rendered⟩ := b.render_cases purpose g pts
  · rw [← changeId_render (congrArg Prod.fst answer)] at numbered
    rw [rendered]
    exact counted.draw rfl numbered
  · rw [rendered]
    refine counted.of_same rfl ?_
    show b.state.changes ≤ (b.state.noteKey (b.state.key g pts)).2.changes
    omega

theorem counted_of_served {fresh : TextBackend} {b : LoggedBackend TextBackend} (served : Served fresh b) :
    Counted b := by
  induction served with
  | start => exact ⟨fun _ member => absurd member List.not_mem_nil, fun _ member => absurd member List.not_mem_nil⟩
  | @decode b p _ ih =>
      refine ih.of_same rfl ?_
      show b.state.changes ≤ (b.state.decode p).changes
      obtain same | ⟨e, -, -, became⟩ := decode_cases p b.state
      · exact Nat.le_of_eq (congrArg TextBackend.changes same).symm
      · exact Nat.le_of_eq (congrArg TextBackend.changes became).symm
  | render purpose g pts _ ih => exact ih.render purpose g pts
  | text pts _ ih => exact ih.of_same rfl (Nat.le_refl _)
  | reset _ ih => exact ih.of_same rfl (Nat.le_refl _)
  | select on _ ih => exact ih.of_same rfl (Nat.le_refl _)
  | @control b c _ ih =>
      have became : (b.control c).2.state = { b.state with atTop := (b.state.control c).2.atTop } :=
        control_frame c b.state
      exact ih.of_same rfl (Nat.le_of_eq (congrArg TextBackend.changes became).symm)

theorem distinctChanges (fresh : TextBackend) : DistinctChanges fresh := fun _ served =>
  (counted_of_served served).distinct

end TextBackend
end Subtitles
