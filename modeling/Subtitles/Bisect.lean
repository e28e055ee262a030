/-
# Bisect: the partition point of a sequence

Where the elements that satisfy a predicate come first, `bisect` finds how many they are with
logarithmically many tests. Each round halves the stretch that may hold the last of them. The
answer is determined by the tests alone, so it is some position also where the elements are
in no such order.
-/
namespace Subtitles

set_option autoImplicit false

/-- The partition point within the `size` positions from `base` on, one of them at least. -/
def bisectFrom (test : Nat → Bool) (base size : Nat) : Nat :=
  if size ≤ 1 then base + (test base).toNat
  else
    let half := size / 2
    bisectFrom test (if test (base + half) then base + half else base) (size - half)
termination_by size

def bisect {α : Type} (test : α → Bool) (xs : List α) : Nat :=
  if xs.isEmpty then 0 else bisectFrom (fun i => xs[i]?.any test) 0 xs.length

theorem bisectFrom_le (test : Nat → Bool) (base size : Nat) (some : 0 < size) :
    bisectFrom test base size ≤ base + size := by
  fun_induction bisectFrom test base size with
  | case1 base size small => have := Bool.toNat_le (test base); omega
  | case2 base size large half ih =>
    have bound := ih (by omega)
    simp only [dite_eq_ite] at bound
    have : (if test (base + half) then base + half else base) ≤ base + half := by split <;> omega
    omega

theorem bisect_le {α : Type} (test : α → Bool) (xs : List α) : bisect test xs ≤ xs.length := by
  unfold bisect
  split
  · exact Nat.zero_le _
  · next some =>
    have := bisectFrom_le (fun i => xs[i]?.any test) 0 xs.length
      (List.length_pos_iff.2 (by simpa using some))
    omega

end Subtitles
