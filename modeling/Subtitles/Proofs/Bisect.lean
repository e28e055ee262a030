/-
# Proofs.Bisect: it finds the partition point

Where the positions before the `n`-th are those that satisfy the test, every round keeps the
`n`-th in the stretch that is left.
-/
import Subtitles.Bisect
namespace Subtitles

set_option autoImplicit false

theorem bisectFrom_eq {test : Nat → Bool} {n : Nat} (base size : Nat) (some : 0 < size)
    (low : base ≤ n) (high : n ≤ base + size)
    (parted : ∀ i, base ≤ i → i < base + size → test i = decide (i < n)) :
    bisectFrom test base size = n := by
  fun_induction bisectFrom test base size with
  | case1 base size small =>
      have here := parted base (Nat.le_refl _) (by omega)
      by_cases before : base < n
      · simp [here, before]
        omega
      · simp [here, before]
        omega
  | case2 base size large half ih =>
      have middle := parted (base + half) (by omega) (by omega)
      by_cases before : base + half < n
      · have kept : (if test (base + half) then base + half else base) = base + half := by
          simp [middle, before]
        simp only [dite_eq_ite, kept] at ih ⊢
        exact ih (by omega) (by omega) (by omega) fun i above below => parted i (by omega) (by omega)
      · have kept : (if test (base + half) then base + half else base) = base := by
          simp [middle, before]
        simp only [dite_eq_ite, kept] at ih ⊢
        exact ih (by omega) (by omega) (by omega) fun i above below => parted i (by omega) (by omega)

theorem bisect_eq {α : Type} {test : α → Bool} {xs : List α} {n : Nat} (inside : n ≤ xs.length)
    (parted : ∀ i x, xs[i]? = some x → test x = decide (i < n)) : bisect test xs = n := by
  unfold bisect
  cases xs with
  | nil => exact (Nat.le_zero.1 inside).symm
  | cons x rest =>
      refine bisectFrom_eq 0 _ (by simp) (Nat.zero_le n) (by simpa using inside) fun i _ below => ?_
      have here : i < (x :: rest).length := by simpa using below
      rw [List.getElem?_eq_getElem here]
      exact parted i _ (List.getElem?_eq_getElem here)

/-- The point is where the elements that satisfy the test end. -/
theorem bisect_append {α : Type} {test : α → Bool} {front back : List α} (before : ∀ x ∈ front, test x = true)
    (behind : ∀ x ∈ back, test x = false) : bisect test (front ++ back) = front.length := by
  refine bisect_eq (by simp) fun i x here => ?_
  by_cases low : i < front.length
  · rw [List.getElem?_append_left low] at here
    rw [before x (List.mem_of_getElem? here)]
    simp [low]
  · rw [List.getElem?_append_right (by omega)] at here
    rw [behind x (List.mem_of_getElem? here)]
    simp [low]

/-- Where every element satisfies the test, the point is at the end. -/
theorem bisect_eq_length {α : Type} {test : α → Bool} {xs : List α} (every : ∀ x ∈ xs, test x = true) :
    bisect test xs = xs.length := by
  have point := bisect_append every (List.forall_mem_nil fun x => test x = false)
  rwa [List.append_nil] at point

theorem insertIdx_length_append {α : Type} (front back : List α) (a : α) :
    (front ++ back).insertIdx front.length a = front ++ a :: back := by
  induction front with
  | nil => rfl
  | cons x front ih => exact congrArg (x :: ·) ih

end Subtitles
