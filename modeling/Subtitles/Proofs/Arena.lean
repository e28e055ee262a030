/-
# Proofs.Arena: what an arena holds, counted

`count` counts the values with a property. A write changes it by the value that goes and the
value that comes: `count_put`, `count_remove`, `count_insert`.

`FreeListed` says that the free list names the vacant slots, each once. Every operation keeps
it, and because of it `insert` overwrites nothing: its handle found nothing before
(`get?_insert_fresh`), and every other handle finds what it found (`get?_insert_ne`).
-/
import Subtitles.Cache.Arena
namespace Subtitles

set_option autoImplicit false

namespace Arena

variable {α : Type}

/-! ## Counting -/

/-- The number of values with a property. -/
def count (p : α → Bool) (a : Arena α) : Nat := a.slots.countP fun s => s.value.any p

theorem countP_any_setIfInBounds {a : Arena α} {h : Handle} {v : α} (found : a.get? h = some v)
    (p : α → Bool) (s : Slot α) :
    (a.slots.setIfInBounds h.slot s).countP (fun s => s.value.any p) + (p v).toNat =
      a.count p + (s.value.any p).toNat := by
  obtain ⟨below, present⟩ := Array.getElem?_eq_some_iff.1 (slot_of_get? found)
  have held : p v = true → 0 < a.count p := fun holds =>
    Array.countP_pos_iff.2 ⟨_, Array.getElem_mem below, by simpa [present] using holds⟩
  have written : (a.slots.setIfInBounds h.slot s).countP (fun s => s.value.any p) =
      a.count p - (if p v = true then 1 else 0) + (if s.value.any p = true then 1 else 0) := by
    rw [Array.setIfInBounds, dif_pos below, Array.countP_set, present]
    rfl
  rw [written]
  by_cases hv : p v = true <;> by_cases hs : s.value.any p = true
  · have := held hv; simp [hv, hs]; omega
  · have := held hv; simp [hv, hs]; omega
  · simp [hv, hs]
  · simp [hv, hs]

theorem count_put {a : Arena α} {h : Handle} {v : α} (found : a.get? h = some v) (p : α → Bool)
    (w : α) : (a.put h w).count p + (p v).toNat = a.count p + (p w).toNat :=
  countP_any_setIfInBounds found p ⟨h.generation, some w⟩

theorem count_remove {a : Arena α} {h : Handle} {v : α} (found : a.get? h = some v)
    (p : α → Bool) : (a.remove h).count p + (p v).toNat = a.count p :=
  countP_any_setIfInBounds found p ⟨h.generation + 1, none⟩

theorem count_pos_iff {a : Arena α} {p : α → Bool} :
    0 < a.count p ↔ ∃ h v, a.get? h = some v ∧ p v = true := by
  unfold count
  rw [Array.countP_pos_iff]
  constructor
  · rintro ⟨s, member, holds⟩
    obtain ⟨i, below, rfl⟩ := Array.getElem_of_mem member
    obtain ⟨v, present, holds⟩ := (Option.any_eq_true ..).1 holds
    exact ⟨⟨i, a.slots[i].generation⟩, v, by simp [get?, below, present], holds⟩
  · rintro ⟨h, v, found, holds⟩
    obtain ⟨below, present⟩ := Array.getElem?_eq_some_iff.1 (slot_of_get? found)
    exact ⟨_, Array.getElem_mem below, by simpa [present] using holds⟩

theorem count_add_count_not (p : α → Bool) (a : Arena α) : a.count p + a.count (!p ·) = a.live := by
  unfold count live
  simp only [← Array.countP_toList]
  induction a.slots.toList with
  | nil => rfl
  | cons s rest ih =>
      simp only [List.countP_cons]
      cases s.value with
      | none => simpa using ih
      | some v => cases holds : p v <;> simp [holds] <;> omega

/-- Different handles that all find a value find as many values. -/
theorem length_le_live {named : List Handle} {a : Arena α} (apart : named.Nodup)
    (all : ∀ h ∈ named, ∃ v, a.get? h = some v) : named.length ≤ a.live := by
  induction named generalizing a with
  | nil => exact Nat.zero_le _
  | cons h rest ih =>
      obtain ⟨notLater, apart⟩ := List.nodup_cons.1 apart
      obtain ⟨v, found⟩ := all h List.mem_cons_self
      -- The others are still found once the value of the first is taken out.
      have others : ∀ k ∈ rest, ∃ w, (a.remove h).get? k = some w := by
        intro k member
        obtain ⟨w, there⟩ := all k (List.mem_cons_of_mem _ member)
        refine ⟨w, (get?_remove_ne found ?_).trans there⟩
        rintro rfl
        exact notLater member
      have fewer := live_remove_lt found
      have counted := ih apart others
      rw [List.length_cons]
      omega

/-! ## The free list -/

/-- The free list names the slots without a value, each of them once. -/
structure FreeListed (a : Arena α) : Prop where
  nodup : a.free.Nodup
  vacant : ∀ i, i ∈ a.free ↔ ∃ g, a.slots[i]? = some ⟨g, none⟩

theorem freeListed_empty : FreeListed ({} : Arena α) := ⟨List.nodup_nil, by simp⟩

namespace FreeListed

variable {a : Arena α}

/-- A slot that holds a value is not on the free list. -/
theorem slot_not_mem (listed : a.FreeListed) {h : Handle} {v : α} (found : a.get? h = some v) :
    h.slot ∉ a.free := by
  intro member
  obtain ⟨g, vacant⟩ := (listed.vacant _).1 member
  rw [slot_of_get? found] at vacant
  simp at vacant

theorem put (listed : a.FreeListed) {h : Handle} {v : α} (found : a.get? h = some v) (w : α) :
    (a.put h w).FreeListed where
  nodup := listed.nodup
  vacant i := by
    change i ∈ a.free ↔ ∃ g, (a.slots.setIfInBounds h.slot ⟨h.generation, some w⟩)[i]? = _
    by_cases same : h.slot = i
    · subst same
      simp [listed.slot_not_mem found, slot_lt_of_get? found]
    · rw [listed.vacant i, Array.getElem?_setIfInBounds_ne same]

theorem remove (listed : a.FreeListed) {h : Handle} {v : α} (found : a.get? h = some v) :
    (a.remove h).FreeListed where
  nodup := List.nodup_cons.2 ⟨listed.slot_not_mem found, listed.nodup⟩
  vacant i := by
    change i ∈ h.slot :: a.free ↔ ∃ g, (a.slots.setIfInBounds h.slot ⟨h.generation + 1, none⟩)[i]? = _
    by_cases same : h.slot = i
    · subst same
      simp [slot_lt_of_get? found]
    · rw [List.mem_cons, Array.getElem?_setIfInBounds_ne same, listed.vacant i]
      simp [Ne.symm same]

end FreeListed

/-! ## Insertion -/

section Insert

variable {a : Arena α} (listed : a.FreeListed) (v : α)
include listed

/-- What an insertion writes: a slot of the free list, or one more slot. -/
theorem insert_cases :
    (∃ slot rest g, a.free = slot :: rest ∧ a.slots[slot]? = some ⟨g, none⟩ ∧
      a.insert v = (⟨slot, g⟩, ⟨a.slots.setIfInBounds slot ⟨g, some v⟩, rest⟩)) ∨
    (a.free = [] ∧ a.insert v = (⟨a.slots.size, 0⟩, ⟨a.slots.push ⟨0, some v⟩, []⟩)) := by
  unfold insert
  cases free : a.free with
  | nil => exact .inr ⟨rfl, rfl⟩
  | cons slot rest =>
      obtain ⟨g, vacant⟩ := (listed.vacant slot).1 (by simp [free])
      exact .inl ⟨slot, rest, g, rfl, vacant, by simp [put, vacant]⟩

theorem get?_insert_fresh : a.get? (a.insert v).1 = none := by
  obtain ⟨slot, rest, g, -, vacant, inserted⟩ | ⟨-, inserted⟩ := insert_cases listed v
  · rw [inserted]; simp [get?, vacant]
  · rw [inserted]; simp [get?]

theorem get?_insert_self : (a.insert v).2.get? (a.insert v).1 = some v := by
  obtain ⟨slot, rest, g, -, vacant, inserted⟩ | ⟨-, inserted⟩ := insert_cases listed v
  · have below := (Array.getElem?_eq_some_iff.1 vacant).1
    rw [inserted]; simp [get?, below]
  · rw [inserted]; simp [get?]

theorem get?_insert_ne {k : Handle} (other : k ≠ (a.insert v).1) :
    (a.insert v).2.get? k = a.get? k := by
  obtain ⟨slot, rest, g, -, vacant, inserted⟩ | ⟨-, inserted⟩ := insert_cases listed v
  · rw [inserted] at other ⊢
    by_cases same : k.slot = slot
    · have generations : ¬ g = k.generation := fun e =>
        other (by cases k; simp_all)
      obtain ⟨below, present⟩ := Array.getElem?_eq_some_iff.1 vacant
      simp [get?, same, below, present, generations]
    · simp [get?, Array.getElem?_setIfInBounds_ne (Ne.symm same)]
  · rw [inserted] at other ⊢
    by_cases same : k.slot = a.slots.size
    · have generations : ¬ (0 : UInt32) = k.generation := fun e =>
        other (by cases k; simp_all)
      simp [get?, same, generations]
    · simp [get?, Array.getElem?_push, same]

theorem count_insert (p : α → Bool) : (a.insert v).2.count p = a.count p + (p v).toNat := by
  obtain ⟨slot, rest, g, -, vacant, inserted⟩ | ⟨-, inserted⟩ := insert_cases listed v
  · obtain ⟨below, present⟩ := Array.getElem?_eq_some_iff.1 vacant
    rw [inserted]
    simp only [count, Array.setIfInBounds, dif_pos below, Array.countP_set, present]
    cases hv : p v <;> simp [hv]
  · rw [inserted]
    simp only [count, Array.countP_push]
    cases hv : p v <;> simp [hv]

theorem freeListed_insert : (a.insert v).2.FreeListed := by
  obtain ⟨slot, rest, g, free, vacant, inserted⟩ | ⟨free, inserted⟩ := insert_cases listed v
  · have below := (Array.getElem?_eq_some_iff.1 vacant).1
    have distinct := listed.nodup
    rw [free, List.nodup_cons] at distinct
    rw [inserted]
    refine ⟨distinct.2, ?_⟩
    intro i
    by_cases same : slot = i
    · subst same
      simp [distinct.1, below]
    · rw [Array.getElem?_setIfInBounds_ne same, ← listed.vacant i, free, List.mem_cons]
      simp [Ne.symm same]
  · rw [inserted]
    refine ⟨List.nodup_nil, ?_⟩
    intro i
    have none_vacant := listed.vacant i
    rw [free] at none_vacant
    by_cases same : i = a.slots.size
    · subst same; simp
    · simpa [Array.getElem?_push, same] using none_vacant

end Insert

end Arena
end Subtitles
