/-
# Proofs.Player.Schedule: the times a player asks for

A player shows its frames at even steps of time, and asks for each of them some steps before. Later frames do
not come earlier (`ptsOf_le`); but where steps are smaller than numbers are apart, or numbers run out, two
frames have one time, and that is asked for once. So what is queued of a stretch of frames is their times
without repetition (`Window`). A frame asked for adds to it at its end, and a frame shown moves its begin.
-/
import Mathlib.Data.List.Nodup
import Mathlib.Data.List.Perm.Subperm
import Subtitles.Player
import Subtitles.Proofs.Binary64.Quotients
namespace Subtitles

set_option autoImplicit false

variable {settings : PlaySettings} {i j lo hi : Nat} {times : List Binary64} {p : Binary64}

namespace PlaySettings

variable (rate : settings.hasRate = true)
include rate

theorem ptsOf_le (le : i ≤ j) : settings.ptsOf i ≤ settings.ptsOf j := by
  obtain ⟨finite, positive⟩ := Bool.and_eq_true_iff.1 rate
  exact Binary64.ofNat_div_le finite (of_decide_eq_true positive) le

theorem not_ptsOf_lt (le : i ≤ j) : ¬ settings.ptsOf j < settings.ptsOf i :=
  fun before => Binary64.not_le_of_lt before (ptsOf_le rate le)

theorem ptsOf_eq (le : i ≤ j) (notLater : ¬ settings.ptsOf i < settings.ptsOf j) :
    settings.ptsOf i = settings.ptsOf j := by
  obtain ⟨finite, positive⟩ := Bool.and_eq_true_iff.1 rate
  exact Binary64.ofNat_div_eq_of_not_lt finite (of_decide_eq_true positive) le notLater

theorem lt_of_ptsOf_lt (before : settings.ptsOf i < settings.ptsOf j) : i < j := by
  by_contra after
  exact not_ptsOf_lt rate (Nat.not_lt.1 after) before

theorem ptsOf_same (i : Nat) : (settings.ptsOf i).Same (settings.ptsOf i) :=
  Binary64.same_self_iff.2 (ptsOf_le rate (Nat.le_refl i)).1.1

/-- The first thousand frames come one after the other, unless there is no later time. -/
theorem ptsOf_lt (positive : 0 < i) (few : i < 1023) :
    settings.ptsOf i < settings.ptsOf (i + 1) ∨ ∀ j, ¬ settings.ptsOf i < settings.ptsOf j := by
  obtain ⟨finite, forward⟩ := Bool.and_eq_true_iff.1 rate
  have forward := of_decide_eq_true forward
  refine (Binary64.ofNat_div_lt finite forward positive few).imp_right fun never j before => ?_
  rw [ptsOf, never, ptsOf, Binary64.ofNat_div_eq finite forward] at before
  exact Binary64.not_le_of_lt before
    (Binary64.pack_le_pack (Binary64.stepMagnitude_le ..) (Nat.le_refl Binary64.infinite))

end PlaySettings

/-- The times of the frames from `lo` on and before `hi`, each once. -/
structure Window (settings : PlaySettings) (lo hi : Nat) (times : List Binary64) : Prop where
  sorted : times.Pairwise (· < ·)
  covers : ∀ j, lo ≤ j → j < hi → settings.ptsOf j ∈ times
  only : ∀ p ∈ times, ∃ j, lo ≤ j ∧ j < hi ∧ p = settings.ptsOf j

namespace Window

theorem nil (settings : PlaySettings) (lo : Nat) : Window settings lo lo [] :=
  ⟨.nil, fun _ low high => absurd high (Nat.not_lt.2 low), nofun⟩

variable (window : Window settings lo hi times)
include window

theorem length_le : times.length ≤ hi - lo := by
  have distinct : times.Nodup := by
    refine window.sorted.imp fun before same => ?_
    rw [same] at before
    exact Binary64.lt_irrefl _ before
  have inside : times ⊆ (List.range' lo (hi - lo)).map settings.ptsOf := by
    intro p member
    obtain ⟨j, low, high, rfl⟩ := window.only p member
    exact List.mem_map_of_mem (List.mem_range'_1.2 ⟨low, by omega⟩)
  have bound := (List.subperm_of_subset distinct inside).length_le
  rwa [List.length_map, List.length_range'] at bound

variable (rate : settings.hasRate = true)
include rate

theorem not_lt_of_mem (le : i ≤ lo) : ∀ p ∈ times, ¬ p < settings.ptsOf i := by
  intro p member
  obtain ⟨j, low, -, rfl⟩ := window.only p member
  exact PlaySettings.not_ptsOf_lt rate (Nat.le_trans le low)

/-- The first of its frames has the first of its times. -/
theorem head?_eq (more : lo < hi) : times.head? = some (settings.ptsOf lo) := by
  have there := window.covers lo (Nat.le_refl lo) more
  have sorted := window.sorted
  have only := window.only
  cases times with
  | nil => cases there
  | cons p rest =>
      obtain ⟨j, low, -, rfl⟩ := only p List.mem_cons_self
      refine congrArg Option.some (PlaySettings.ptsOf_eq rate low ?_).symm
      rcases List.mem_cons.1 there with same | later
      · rw [← same]
        exact Binary64.lt_irrefl _
      · exact Binary64.lt_asymm ((List.pairwise_cons.1 sorted).1 _ later)

/-- The last has the last. -/
theorem getLast?_eq (more : lo < hi) : times.getLast? = some (settings.ptsOf (hi - 1)) := by
  have there := window.covers (hi - 1) (by omega) (by omega)
  have sorted := window.sorted
  rcases List.eq_nil_or_concat times with rfl | ⟨front, p, rfl⟩
  · cases there
  · rw [List.concat_eq_append] at there sorted ⊢
    obtain ⟨j, -, high, rfl⟩ := window.only p (by simp)
    rw [List.getLast?_concat]
    refine congrArg Option.some (PlaySettings.ptsOf_eq rate (by omega) ?_)
    rcases List.mem_append.1 there with earlier | same
    · exact Binary64.lt_asymm ((List.pairwise_append.1 sorted).2.2 _ earlier _ (List.mem_singleton_self _))
    · rw [← List.mem_singleton.1 same]
      exact Binary64.lt_irrefl _

/-- The next frame is asked for. Its time is added if it is later than all of them. -/
theorem request {times' : List Binary64} (le : lo ≤ hi)
    (outcome : ((∀ p ∈ times, p < settings.ptsOf hi) ∧ times' = times ++ [settings.ptsOf hi]) ∨
      ((∃ p ∈ times, ¬ p < settings.ptsOf hi) ∧ times' = times)) : Window settings lo (hi + 1) times' := by
  have here : settings.ptsOf hi ∈ times' := by
    obtain ⟨-, rfl⟩ | ⟨⟨p, member, notEarlier⟩, rfl⟩ := outcome
    · exact List.mem_append_right _ (List.mem_singleton_self _)
    · obtain ⟨j, -, high, rfl⟩ := window.only p member
      exact PlaySettings.ptsOf_eq rate (Nat.le_of_lt high) notEarlier ▸ member
  have before : ∀ p ∈ times, p ∈ times' := by
    obtain ⟨-, rfl⟩ | ⟨-, rfl⟩ := outcome
    · exact fun p member => List.mem_append_left _ member
    · exact fun p member => member
  have after : ∀ p ∈ times', p ∈ times ∨ p = settings.ptsOf hi := by
    obtain ⟨-, rfl⟩ | ⟨-, rfl⟩ := outcome
    · exact fun p member => (List.mem_append.1 member).imp_right List.mem_singleton.1
    · exact fun p member => .inl member
  refine ⟨?_, fun j low high => ?_, fun p member => ?_⟩
  · obtain ⟨earlier, rfl⟩ | ⟨-, rfl⟩ := outcome
    · refine List.pairwise_append.2 ⟨window.sorted, List.pairwise_singleton .., fun p member q last => ?_⟩
      rw [List.mem_singleton.1 last]
      exact earlier p member
    · exact window.sorted
  · rcases Nat.lt_or_eq_of_le (Nat.lt_succ_iff.1 high) with earlier | rfl
    · exact before _ (window.covers j low earlier)
    · exact here
  · rcases after p member with old | rfl
    · obtain ⟨j, low, high, same⟩ := window.only p old
      exact ⟨j, low, Nat.lt_succ_of_lt high, same⟩
    · exact ⟨hi, le, Nat.lt_succ_self hi, rfl⟩

/-- If it is not later, its time is that of the frame before. -/
theorem eq_of_not_later (refused : ∃ p ∈ times, ¬ p < settings.ptsOf hi) :
    settings.ptsOf (hi - 1) = settings.ptsOf hi := by
  obtain ⟨p, member, notEarlier⟩ := refused
  obtain ⟨j, -, high, rfl⟩ := window.only p member
  have same := PlaySettings.ptsOf_eq rate (Nat.le_of_lt high) notEarlier
  refine PlaySettings.ptsOf_eq rate (by omega) ?_
  rw [← same]
  exact PlaySettings.not_ptsOf_lt rate (by omega)

omit rate in
/-- The first frame is left behind, and the next has the same time. -/
theorem stay (more : lo + 1 < hi) (same : settings.ptsOf lo = settings.ptsOf (lo + 1)) :
    Window settings (lo + 1) hi times := by
  refine ⟨window.sorted, fun j low high => window.covers j (Nat.le_of_succ_le low) high, fun p member => ?_⟩
  obtain ⟨j, low, high, rfl⟩ := window.only p member
  rcases Nat.lt_or_eq_of_le low with later | rfl
  · exact ⟨j, later, high, rfl⟩
  · exact ⟨lo + 1, Nat.le_refl _, more, same⟩

/-- It is left behind, and the next comes later. -/
theorem drop {rest : List Binary64} (parts : times = p :: rest) (later : settings.ptsOf lo < settings.ptsOf (lo + 1))
    (more : lo < hi) : Window settings (lo + 1) hi rest := by
  have first := window.head?_eq rate more
  have sorted := window.sorted
  rw [parts] at first sorted
  obtain rfl := Option.some.inj first
  obtain ⟨above, sorted⟩ := List.pairwise_cons.1 sorted
  refine ⟨sorted, fun j low high => ?_, fun p member => ?_⟩
  · have there := window.covers j (Nat.le_of_succ_le low) high
    rw [parts] at there
    rcases List.mem_cons.1 there with same | there
    · have before := Binary64.lt_of_lt_of_le later (PlaySettings.ptsOf_le rate low)
      exact absurd (same ▸ before) (Binary64.lt_irrefl _)
    · exact there
  · obtain ⟨j, low, high, rfl⟩ := window.only p (parts ▸ List.mem_cons_of_mem _ member)
    exact ⟨j, PlaySettings.lt_of_ptsOf_lt rate (above _ member), high, rfl⟩

end Window
end Subtitles
