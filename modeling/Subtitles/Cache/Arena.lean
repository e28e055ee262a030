/-
# Cache.Arena: slots behind handles that go stale

An arena keeps values in slots. A handle is a slot's number with the generation the slot had
when the value went in; taking the value out moves the slot to its next generation and puts
its number on the free list, from which the latest is used first. So a handle of a value that
is gone finds nothing, also when its slot holds another value by now.

Slots are numbered in `Nat`. That stands for words of 32 bits as long as the arena has fewer than
2 ^ 32 slots; a number that no longer fits would stay at the last one. Generations are words, and
wrap.

`get?_put_self`, `get?_put_ne`, `get?_remove_self` and `get?_remove_ne` say what each write
does to every look-up; `live_remove_lt` is why a chain of removals ends.
-/
namespace Subtitles

set_option autoImplicit false

structure Handle where
  slot : Nat
  generation : UInt32
  deriving DecidableEq, Repr, Inhabited

structure Slot (α : Type) where
  generation : UInt32
  value : Option α
  deriving Repr

structure Arena (α : Type) where
  slots : Array (Slot α) := #[]
  free : List Nat := []
  deriving Repr

namespace Arena

variable {α : Type}

def get? (a : Arena α) (h : Handle) : Option α :=
  match a.slots[h.slot]? with
  | some s => if s.generation = h.generation then s.value else none
  | none => none

/-- The number of values. -/
def live (a : Arena α) : Nat := a.slots.countP fun s => s.value.isSome

/-- Put a value where the handle points. -/
def put (a : Arena α) (h : Handle) (v : α) : Arena α :=
  { a with slots := a.slots.setIfInBounds h.slot ⟨h.generation, some v⟩ }

/-- Put a value into the slot freed last, or into a new one. -/
def insert (a : Arena α) (v : α) : Handle × Arena α :=
  match a.free with
  | slot :: rest =>
    let h : Handle := ⟨slot, (a.slots[slot]?.map Slot.generation).getD 0⟩
    (h, { a.put h v with free := rest })
  | [] => (⟨a.slots.size, 0⟩, { a with slots := a.slots.push ⟨0, some v⟩ })

/-- Take the value out that the handle points to. -/
def remove (a : Arena α) (h : Handle) : Arena α where
  slots := a.slots.setIfInBounds h.slot ⟨h.generation + 1, none⟩
  free := h.slot :: a.free

/-! ## Look-up after a write -/

theorem slot_of_get? {a : Arena α} {h : Handle} {v : α} (found : a.get? h = some v) :
    a.slots[h.slot]? = some ⟨h.generation, some v⟩ := by
  unfold get? at found
  split at found
  · next s present =>
    split at found
    · next same => rw [present, ← same, ← found]
    · simp at found
  · simp at found

theorem slot_lt_of_get? {a : Arena α} {h : Handle} {v : α} (found : a.get? h = some v) :
    h.slot < a.slots.size :=
  (Array.getElem?_eq_some_iff.1 (slot_of_get? found)).1

theorem get?_put_self {a : Arena α} {h : Handle} {v w : α} (found : a.get? h = some v) :
    (a.put h w).get? h = some w := by
  simp [put, get?, slot_lt_of_get? found]

/-- Of all handles to one slot at most one finds something. -/
theorem get?_eq_none_of_slot {a : Arena α} {h k : Handle} {v : α} (found : a.get? h = some v)
    (other : k ≠ h) (same : k.slot = h.slot) : a.get? k = none := by
  have generations : ¬ h.generation = k.generation := fun e =>
    other (by cases h; cases k; simp_all)
  rw [get?, same, slot_of_get? found]
  simp [generations]

theorem get?_put_ne {a : Arena α} {h k : Handle} {v w : α} (found : a.get? h = some v)
    (other : k ≠ h) : (a.put h w).get? k = a.get? k := by
  by_cases same : k.slot = h.slot
  · rw [get?_eq_none_of_slot found other same,
      get?_eq_none_of_slot (get?_put_self found) other same]
  · simp [put, get?, Array.getElem?_setIfInBounds_ne (Ne.symm same)]

theorem get?_remove_self {a : Arena α} {h : Handle} {v : α} (found : a.get? h = some v) :
    (a.remove h).get? h = none := by
  simp [remove, get?, slot_lt_of_get? found]

theorem get?_remove_ne {a : Arena α} {h k : Handle} {v : α} (found : a.get? h = some v)
    (other : k ≠ h) : (a.remove h).get? k = a.get? k := by
  by_cases same : k.slot = h.slot
  · rw [get?_eq_none_of_slot found other same]
    simp [remove, get?, same, slot_lt_of_get? found]
  · simp [remove, get?, Array.getElem?_setIfInBounds_ne (Ne.symm same)]

/-! ## Counting values -/

/-- The values counted after a write to a slot that holds one. -/
theorem countP_setIfInBounds {a : Arena α} {h : Handle} {v : α} (found : a.get? h = some v)
    (s : Slot α) :
    (a.slots.setIfInBounds h.slot s).countP (fun s => s.value.isSome) =
      a.live - 1 + s.value.isSome.toNat := by
  obtain ⟨below, present⟩ := Array.getElem?_eq_some_iff.1 (slot_of_get? found)
  rw [Array.setIfInBounds, dif_pos below, Array.countP_set, present]
  cases h : s.value <;> rfl

theorem live_pos {a : Arena α} {h : Handle} {v : α} (found : a.get? h = some v) : 0 < a.live := by
  obtain ⟨below, present⟩ := Array.getElem?_eq_some_iff.1 (slot_of_get? found)
  exact Array.countP_pos_iff.2 ⟨_, Array.getElem_mem below, by rw [present]; rfl⟩

theorem live_remove_lt {a : Arena α} {h : Handle} {v : α} (found : a.get? h = some v) :
    (a.remove h).live < a.live := by
  have counted : (a.remove h).live = a.live - 1 := countP_setIfInBounds found _
  have := live_pos found
  omega

theorem live_put {a : Arena α} {h : Handle} {v w : α} (found : a.get? h = some v) :
    (a.put h w).live = a.live := by
  have counted : (a.put h w).live = a.live - 1 + 1 := countP_setIfInBounds found _
  have := live_pos found
  omega

end Arena
end Subtitles
