/-
# Proofs.TextBackend.Indicator: change numbers of text, whatever it is used for

The key noted last is that of the latest render since the last reset, and its events are still there
(`recalls`). So a render that is given the number 0 shows what that one showed. Other numbers are
counted up and never go back (`changes_le_append`), so each is greater than all before it.
-/
import Subtitles.Proofs.TextBackend.Changes
import Subtitles.Proofs.Uses
namespace Subtitles

set_option autoImplicit false

namespace TextBackend

variable {us : List Use} {u : Use} {g : Geometry} {pts : Binary64} {f : Frame}

theorem init_frame (codec : Codec) (b : TextBackend) : (b.init codec).2 = b := by
  unfold init
  split <;> rfl

/-! ## The key -/

/-- The key noted last is that of the latest render. Its events are still there, and if they can be drawn,
that render drew them. -/
structure Recalls (us : List Use) : Prop where
  numbered : (afterUses ({} : TextBackend) us).Numbered
  last : ∀ k, (afterUses ({} : TextBackend) us).lastKey = some k → ∃ es g pts older,
    Repeatable us g pts older ∧ es ⊆ (afterUses ({} : TextBackend) us).events ∧ es.map (·.id) = k.active ∧
      ∀ parts, drawn es k.geometry k.atTop = .ok parts →
        ∃ f, renderAfter ({} : TextBackend) older g pts = .ok f ∧ MadeOf f parts

/-- A use that change numbers look past keeps the key, and the events. -/
theorem Recalls.pass (recalls : Recalls us) (passes : u.passes = true)
    (numbered : (afterUses ({} : TextBackend) (u :: us)).Numbered)
    (kept : (afterUses ({} : TextBackend) us).events ⊆ (afterUses ({} : TextBackend) (u :: us)).events)
    (key : (afterUses ({} : TextBackend) (u :: us)).lastKey = (afterUses ({} : TextBackend) us).lastKey) :
    Recalls (u :: us) := by
  refine ⟨numbered, fun k last => ?_⟩
  obtain ⟨es, g, pts, older, before, there, ids, shown⟩ := recalls.last k (key ▸ last)
  exact ⟨es, g, pts, older, before.later passes, fun e member => kept (there member), ids, shown⟩

theorem Recalls.render (recalls : Recalls us) (g : Geometry) (pts : Binary64) : Recalls (.render g pts :: us) := by
  obtain ⟨draws, faults, changes, became⟩ := render_cases (afterUses ({} : TextBackend) us) g pts
  have state : afterUses ({} : TextBackend) (.render g pts :: us) =
    { afterUses ({} : TextBackend) us with lastKey := some (key (afterUses {} us) g pts), changes } := became
  refine ⟨?_, fun k last => ?_⟩
  · rw [state]
    exact ⟨recalls.numbered.distinct, recalls.numbered.below⟩
  · rw [state] at last ⊢
    obtain rfl := Option.some.inj last
    refine ⟨_, g, pts, us, .now g pts us, (Event.visibleAt_sublist pts _).subset, rfl, ?_⟩
    intro parts given
    cases answer : renderAfter ({} : TextBackend) us g pts with
    | error fault => exact absurd (given.symm.trans (faults fault answer)) nofun
    | ok f =>
        obtain ⟨parts', shown, made⟩ := draws f answer
        obtain rfl := Except.ok.inj (given.symm.trans shown)
        exact ⟨f, rfl, made⟩

theorem recalls (us : List Use) : Recalls us := by
  induction us with
  | nil => exact ⟨⟨List.nodup_nil, fun _ member => absurd member List.not_mem_nil⟩, nofun⟩
  | cons u us ih =>
      cases u with
      | init codec =>
          have same : afterUses ({} : TextBackend) (.init codec :: us) = afterUses {} us := init_frame codec _
          exact ih.pass rfl (same ▸ ih.numbered) (same ▸ List.Subset.refl _) (congrArg lastKey same)
      | decode p =>
          refine ih.pass rfl (ih.numbered.decode p) ?_ ?_
          · obtain same | ⟨e, -, -, became⟩ := decode_cases p (afterUses {} us)
            · exact (congrArg events same).symm ▸ List.Subset.refl _
            · intro f member
              show f ∈ (decode p (afterUses {} us)).events
              rw [became]
              exact (Event.insert_perm e _).mem_iff.2 (List.mem_cons_of_mem _ member)
          · show (decode p (afterUses {} us)).lastKey = _
            obtain same | ⟨e, -, -, became⟩ := decode_cases p (afterUses {} us)
            · rw [same]
            · rw [became]
      | render g pts => exact ih.render g pts
      | text pts => exact ih.pass rfl ih.numbered (List.Subset.refl _) rfl
      | control c =>
          have became : afterUses ({} : TextBackend) (.control c :: us) =
            { afterUses ({} : TextBackend) us with atTop := (control c (afterUses {} us)).2.atTop } := control_frame c _
          refine ih.pass rfl ?_ ?_ ?_ <;> rw [became]
          · exact ⟨ih.numbered.distinct, ih.numbered.below⟩
          · exact List.Subset.refl _
      | reset => exact ⟨⟨ih.numbered.distinct, ih.numbered.below⟩, nofun⟩

/-! ## The count -/

theorem changes_le_on (u : Use) (b : TextBackend) : b.changes ≤ (u.on b).changes := by
  cases u with
  | init codec => exact Nat.le_of_eq (congrArg changes (init_frame codec b)).symm
  | decode p =>
      obtain same | ⟨e, -, -, became⟩ := decode_cases p b
      · exact Nat.le_of_eq (congrArg changes same).symm
      · exact Nat.le_of_eq (congrArg changes became).symm
  | render g pts =>
      show b.changes ≤ (b.noteKey (b.key g pts)).2.changes
      obtain ⟨-, same⟩ | ⟨-, next⟩ := noteKey_cases b (b.key g pts)
      · omega
      · omega
  | control c => exact Nat.le_of_eq (congrArg changes (control_frame c b)).symm
  | text pts => exact Nat.le_refl _
  | reset => exact Nat.le_refl _

theorem changes_le_append (newer older : List Use) :
    (afterUses ({} : TextBackend) older).changes ≤ (afterUses ({} : TextBackend) (newer ++ older)).changes := by
  induction newer with
  | nil => exact Nat.le_refl _
  | cons u newer ih => exact Nat.le_trans ih (changes_le_on u _)

/-- A number is at most the count after it. -/
theorem changeId_le (answer : renderAfter ({} : TextBackend) us g pts = .ok f) :
    f.changeId ≤ (afterUses ({} : TextBackend) (.render g pts :: us)).changes := by
  rw [changeId_render answer]
  show _ ≤ (noteKey (afterUses {} us) (key (afterUses {} us) g pts)).2.changes
  obtain ⟨number, -⟩ | ⟨number, next⟩ := noteKey_cases (afterUses {} us) (key (afterUses {} us) g pts)
  · omega
  · omega

/-- A render that is given the number 0 shows what the latest one before it showed. -/
theorem repeats_of_zero (answer : renderAfter ({} : TextBackend) us g pts = .ok f) (number : f.changeId = 0) :
    ∃ g' pts' older f', Repeatable us g' pts' older ∧
      renderAfter ({} : TextBackend) older g' pts' = .ok f' ∧ f.SameContent f' := by
  rw [changeId_render answer] at number
  obtain ⟨k, last, ids, geometry, top⟩ := noteKey_eq_zero number
  obtain ⟨es, g', pts', older, before, there, ids', shown⟩ := (recalls us).last k last
  obtain ⟨parts, given, made⟩ := (render_cases _ g pts).1 f answer
  have same : es = (afterUses ({} : TextBackend) us).active pts :=
    (recalls us).numbered.eq_of_ids there (Event.visibleAt_sublist pts _).subset (ids'.trans ids)
  obtain ⟨f', answer', made'⟩ := shown parts (by rw [same, drawn_congr geometry, top]; exact given)
  exact ⟨g', pts', older, f', before, answer', made.sameContent made'⟩

theorem numbersGrow : NumbersGrow ({} : TextBackend) := by
  rintro _ g pts f answer number e ⟨newer, g', pts', older, rfl, answer'⟩
  have below := changeId_le answer'
  have grown := changes_le_append newer (.render g' pts' :: older)
  rw [changeId_render answer] at number ⊢
  obtain ⟨zero, -⟩ | ⟨next, -⟩ := noteKey_cases
    (afterUses ({} : TextBackend) (newer ++ .render g' pts' :: older)) (key (afterUses {} _) g pts)
  · exact absurd zero number
  · omega

/-- Of any uses, a render is given the number 0 only where there was one before it, with no reset since, that
gave a frame of the same content. Any other number is greater than those of all frames before. -/
theorem numbers_tell_and_grow (us : List Use) {g : Geometry} {pts : Binary64} {f : Frame}
    (answer : renderAfter ({} : TextBackend) us g pts = .ok f) :
    (f.changeId = 0 → ∃ g' pts' older f', Repeatable us g' pts' older ∧
      renderAfter ({} : TextBackend) older g' pts' = .ok f' ∧ f.SameContent f') ∧
    (f.changeId ≠ 0 → ∀ newer g' pts' older f', us = newer ++ .render g' pts' :: older →
      renderAfter ({} : TextBackend) older g' pts' = .ok f' → f'.changeId < f.changeId) :=
  ⟨repeats_of_zero answer, fun number newer g' pts' older f' parts answer' =>
    numbersGrow us g pts f answer number f' ⟨newer, g', pts', older, parts, answer'⟩⟩

/-- A line is shown, and then one comes in that was over before it. -/
def overtakenUses : List Use :=
  [.decode (.ofText (some .one) (some .one) "early"), .render { width := 160, height := 90 } (.ofNat 6),
    .decode (.ofText (some (.ofNat 5)) none "late")]

/-- The line shows the same, though it is the second one now; after a reset it counts as new. -/
theorem numbers_tell_and_grow_overtaken :
    ∃ f f' : Frame,
      renderAfter ({} : TextBackend) overtakenUses { width := 160, height := 90 } (.ofNat 6) = .ok f ∧
      f.changeId = 0 ∧ (∃ g' pts' older f'', Repeatable overtakenUses g' pts' older ∧
        renderAfter ({} : TextBackend) older g' pts' = .ok f'' ∧ f.SameContent f'') ∧
      renderAfter ({} : TextBackend) (.reset :: overtakenUses) { width := 160, height := 90 } (.ofNat 6) = .ok f' ∧
      f'.changeId = 2 ∧ ∀ newer g' pts' older f'', .reset :: overtakenUses = newer ++ .render g' pts' :: older →
        renderAfter ({} : TextBackend) older g' pts' = .ok f'' → f''.changeId < 2 := by
  have first : numberAfter? ({} : TextBackend) overtakenUses { width := 160, height := 90 } (.ofNat 6) = some 0 := by
    decide +kernel
  have second : numberAfter? ({} : TextBackend) (.reset :: overtakenUses) { width := 160, height := 90 } (.ofNat 6) =
      some 2 := by
    decide +kernel
  obtain ⟨f, answer, number⟩ := renderAfter_of_number first
  obtain ⟨f', answer', number'⟩ := renderAfter_of_number second
  exact ⟨f, f', answer, number, (numbers_tell_and_grow _ answer).1 number, answer', number',
    number' ▸ (numbers_tell_and_grow _ answer').2 (by omega)⟩

end TextBackend
end Subtitles
