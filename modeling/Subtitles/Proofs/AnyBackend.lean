/-
# Proofs.AnyBackend: what the numbers of the built-in backends tell

The built-in backends pass every use on to the backend inside (`Wraps`), so what is known of that one's
numbers is known of theirs: they grow, and the number 0 repeats the latest render, at least while the size
that pictures are scaled from stays the same.
-/
import Subtitles.AnyBackend
import Subtitles.Proofs.PictureBackend.Indicator
import Subtitles.Proofs.TextBackend.Indicator
namespace Subtitles

set_option autoImplicit false

section Wrapping

variable {σ τ : Type} [Backend σ] [Backend τ]

/-- While the same size is told, a render that is given the number 0 shows what the latest one before it did. -/
def ZerosRepeat (fresh : σ) : Prop :=
  ∀ us g pts f, renderAfter fresh us g pts = .ok f → f.changeId = 0 → ∃ g' pts' older e,
    latestRender? us = some (g', pts', older) ∧ renderAfter fresh older g' pts' = .ok e ∧
      (sizeTold us = sizeTold older → f.SameContent e)

/-- The one backend passes all uses on to the other one, inside of it. -/
structure Wraps (wrap : σ → τ) : Prop where
  use : ∀ (u : Use) b, u.on (wrap b) = wrap (u.on b)
  answer : ∀ g pts b, (Backend.render g pts (wrap b)).1 = (Backend.render g pts b).1

namespace Wraps

variable {wrap : σ → τ} (wraps : Wraps wrap) {fresh : σ}
include wraps

theorem afterUses (us : List Use) : Subtitles.afterUses (wrap fresh) us = wrap (Subtitles.afterUses fresh us) := by
  induction us with
  | nil => rfl
  | cons u us ih => rw [Subtitles.afterUses, ih, wraps.use, Subtitles.afterUses]

theorem renderAfter (us : List Use) (g : Geometry) (pts : Binary64) :
    Subtitles.renderAfter (wrap fresh) us g pts = Subtitles.renderAfter fresh us g pts := by
  rw [Subtitles.renderAfter, wraps.afterUses, wraps.answer, Subtitles.renderAfter]

theorem numbersGrow (grow : NumbersGrow fresh) : NumbersGrow (wrap fresh) := by
  rintro us g pts f answer number e ⟨newer, g', pts', older, parts, answer'⟩
  rw [wraps.renderAfter] at answer answer'
  exact grow us g pts f answer number e ⟨newer, g', pts', older, parts, answer'⟩

theorem zerosRepeat (repeats : ZerosRepeat fresh) : ZerosRepeat (wrap fresh) := by
  intro us g pts f answer number
  rw [wraps.renderAfter] at answer
  obtain ⟨g', pts', older, e, latest, answer', same⟩ := repeats us g pts f answer number
  exact ⟨g', pts', older, e, latest, (wraps.renderAfter ..).trans answer', same⟩

end Wraps
end Wrapping

namespace AnyBackend

theorem wraps_text : Wraps AnyBackend.text := ⟨fun u b => by cases u <;> rfl, fun g pts b => rfl⟩

theorem wraps_picture : Wraps AnyBackend.picture := ⟨fun u b => by cases u <;> rfl, fun g pts b => rfl⟩

/-- Whichever of the built-in backends is used, its numbers tell. -/
theorem numbersGrow_of_builtin {fresh : AnyBackend} (builtin : fresh ∈ builtin) : NumbersGrow fresh := by
  rcases List.mem_cons.1 builtin with rfl | text
  · exact wraps_picture.numbersGrow PictureBackend.numbersGrow
  · rw [List.mem_singleton.1 text]
    exact wraps_text.numbersGrow TextBackend.numbersGrow

theorem zerosRepeat_of_builtin {fresh : AnyBackend} (builtin : fresh ∈ builtin) : ZerosRepeat fresh := by
  rcases List.mem_cons.1 builtin with rfl | text
  · refine wraps_picture.zerosRepeat fun us g pts f answer number => ?_
    obtain ⟨g', pts', older, e, before, answer', same⟩ := PictureBackend.repeats_of_zero answer number
    exact ⟨g', pts', older, e, before.latestRender?_eq, answer', same⟩
  · rw [List.mem_singleton.1 text]
    refine wraps_text.zerosRepeat fun us g pts f answer number => ?_
    obtain ⟨g', pts', older, e, before, answer', same⟩ := TextBackend.repeats_of_zero answer number
    exact ⟨g', pts', older, e, before.latestRender?_eq, answer', fun _ => same⟩

end AnyBackend
end Subtitles
