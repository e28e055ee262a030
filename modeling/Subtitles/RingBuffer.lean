/-
# RingBuffer: a row of items in a ring of places

The items lie in consecutive places from `first` on, and behind the last place the row goes on
at place 0. The seam is where it does so: the items before it are one run, those behind it
another. Insertion moves the shorter side of the row, and a ring without a free place is
widened before.

`partitionPoint` is a search that looks at the seam first and then halves one of the two runs.
Where the items that satisfy the test come first, it finds how many they are. In any other row
its answer hangs on the seam, and is some position all the same (`partitionPoint_le`).
-/
import Subtitles.Bisect
namespace Subtitles

set_option autoImplicit false

structure RingBuffer (α : Type) where
  items : List α := []
  places : Nat := 0
  /-- The place of the first item. -/
  first : Nat := 0
  deriving Repr

namespace RingBuffer

variable {α : Type}

def size (r : RingBuffer α) : Nat := r.items.length

/-- How many items come before the row goes on at place 0. -/
def seam (r : RingBuffer α) : Nat := min r.items.length (r.places - r.first)

/-- Twice the places, four at least, if all are taken. Of the two runs the shorter one moves:
that behind the seam to the places behind the other, or that before it to the end of the ring. -/
def widened (r : RingBuffer α) : RingBuffer α :=
  if r.size < r.places then r
  else
    let places := max 4 (2 * r.places)
    let run := r.places - r.first
    { r with places, first := if r.first = 0 ∨ r.first < run then r.first else places - run }

/-- The items behind the new one move, or those before it if they are not more. -/
def insertIdx (r : RingBuffer α) (i : Nat) (a : α) : RingBuffer α :=
  let wide := r.widened
  { wide with
    items := r.items.insertIdx i a
    first := if r.size - i < i then wide.first else (wide.first + wide.places - 1) % wide.places }

def map (f : α → α) (r : RingBuffer α) : RingBuffer α := { r with items := r.items.map f }

/-- Without the first `n` items. -/
def drop (n : Nat) (r : RingBuffer α) : RingBuffer α :=
  { r with items := r.items.drop n, first := (r.first + n) % r.places }

/-- No items, in as many places. -/
def cleared (r : RingBuffer α) : RingBuffer α := { r with items := [], first := 0 }

/-- The partition point of the row, searched in the run that the item behind the seam shows. -/
def partitionPoint (test : α → Bool) (r : RingBuffer α) : Nat :=
  if r.items[r.seam]?.any test then r.seam + bisect test (r.items.drop r.seam)
  else bisect test (r.items.take r.seam)

theorem widened_items (r : RingBuffer α) : r.widened.items = r.items := by
  unfold widened
  split <;> rfl

theorem size_insertIdx (r : RingBuffer α) {i : Nat} (a : α) (within : i ≤ r.size) :
    (r.insertIdx i a).size = r.size + 1 :=
  List.length_insertIdx_of_le_length within a

theorem size_drop (n : Nat) (r : RingBuffer α) : (r.drop n).size = r.size - n := List.length_drop

/-- The search ends at a position of the row or right behind it. -/
theorem partitionPoint_le (test : α → Bool) (r : RingBuffer α) : r.partitionPoint test ≤ r.size := by
  have seamed : r.seam ≤ r.size := Nat.min_le_left ..
  unfold partitionPoint
  split
  · have := bisect_le test (r.items.drop r.seam)
    rw [List.length_drop] at this
    unfold size at seamed ⊢
    omega
  · have := bisect_le test (r.items.take r.seam)
    rw [List.length_take] at this
    unfold size at seamed ⊢
    omega

end RingBuffer
end Subtitles
