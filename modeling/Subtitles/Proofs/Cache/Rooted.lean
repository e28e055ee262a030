/-
# Proofs.Cache.Rooted: nothing lives that no root leads to

The references of a live entry come from roots and from links of sharing. Going up the links from
an entry ends, since every link leads to a lower rank and the ranks of live entries have a
highest; so it ends at a root (`Consistent.rooted`). Going down from a root ends at one entry without
a link, so there are no more such entries than roots (`unlinked_le`), and no more owners
(`Consistent.owners_le`).
-/
import Subtitles.Proofs.Cache.Sharing
import Mathlib.Data.Finset.Lattice.Fold
import Mathlib.Data.List.FinRange
import Mathlib.Data.List.Perm.Subperm
import Mathlib.Logic.Relation
namespace Subtitles

set_option autoImplicit false

/-! ## Values by their handles -/

namespace Arena

variable {α : Type} {a : Arena α}

theorem count_mono {p q : α → Bool} (implies : ∀ v, p v = true → q v = true) : a.count p ≤ a.count q := by
  refine Array.countP_mono_left fun s _ holds => ?_
  obtain ⟨v, value, holds⟩ := (Option.any_eq_true ..).1 holds
  exact (Option.any_eq_true ..).2 ⟨v, value, implies v holds⟩

/-- A measure of handles is bounded on those that find a value. -/
theorem exists_bound (a : Arena α) (rank : Handle → Nat) :
    ∃ top, ∀ h v, a.get? h = some v → rank h ≤ top := by
  let present : Nat → Handle := fun i => ⟨i, (a.slots[i]?.map Slot.generation).getD 0⟩
  refine ⟨(Finset.range a.slots.size).sup fun i => rank (present i), ?_⟩
  intro h v found
  have here : present h.slot = h := by simp [present, slot_of_get? found]
  have inside : h.slot ∈ Finset.range a.slots.size := Finset.mem_range.2 (slot_lt_of_get? found)
  calc rank h = rank (present h.slot) := by rw [here]
    _ ≤ _ := Finset.le_sup (f := fun i => rank (present i)) inside

/-- There are no more values with a property than handles that name them all. -/
theorem count_le_length {p : α → Bool} {named : List Handle}
    (all : ∀ h v, a.get? h = some v → p v = true → h ∈ named) : a.count p ≤ named.length := by
  let holds : Fin a.slots.toList.length → Bool := fun i => (a.slots.toList.get i).value.any p
  let places := ((List.finRange a.slots.toList.length).filter holds).map Fin.val
  have counted : a.count p = places.length := by
    rw [List.length_map, ← List.countP_eq_length_filter, count, ← Array.countP_toList]
    conv_lhs => rw [← List.ofFn_get a.slots.toList, List.ofFn_eq_map, List.countP_map]
    rfl
  have apart : places.Nodup :=
    ((List.nodup_finRange _).filter _).map Fin.val_injective
  have within : places ⊆ named.map Handle.slot := by
    intro slot member
    obtain ⟨i, chosen, rfl⟩ := List.mem_map.1 member
    obtain ⟨v, value, property⟩ := (Option.any_eq_true ..).1 (List.mem_filter.1 chosen).2
    have below : i.val < a.slots.size := i.isLt
    have found : a.get? ⟨i.val, a.slots[i.val].generation⟩ = some v := by
      simpa [get?, below] using value
    exact List.mem_map.2 ⟨_, all _ v found property, rfl⟩
  calc a.count p = places.length := counted
    _ ≤ (named.map Handle.slot).length := (apart.subperm within).length_le
    _ = named.length := List.length_map _

end Arena

/-- The entry has a frame of its own. -/
def Entry.isOwner (e : Entry) : Bool :=
  match e.storage with
  | .owned _ => true
  | _ => false

theorem Entry.isOwner_eq_true {e : Entry} : e.isOwner = true ↔ ∃ frame, e.storage = .owned frame := by
  unfold isOwner
  split <;> simp_all

/-- The entry shows what another entry shows. -/
def Entry.isSharer (e : Entry) : Bool :=
  match e.storage with
  | .shared _ => true
  | _ => false

theorem Entry.isSharer_of_isOwner {e : Entry} (owner : e.isOwner = true) : (!e.isSharer) = true := by
  obtain ⟨frame, own⟩ := isOwner_eq_true.1 owner
  simp [isSharer, own]

namespace Cache

/-- Zero or more links of sharing lead from the first entry to the second. -/
def LeadsTo (c : Cache) : Handle → Handle → Prop :=
  Relation.ReflTransGen fun h owner => c.SharesFrom owner h

variable {c : Cache} {roots held : List Handle} {h root : Handle}

theorem rooted (acc : c.arena.Accounted roots) (live : ∃ e, c.entry? h = some e) :
    ∃ root ∈ roots, c.LeadsTo root h := by
  obtain ⟨rank, lower⟩ := acc.ranked
  obtain ⟨top, highest⟩ := c.arena.exists_bound rank
  -- Each sharer of an entry is of a higher rank, and none is above the highest.
  induction room : top - rank h using Nat.strongRecOn generalizing h with
  | ind n ih =>
      obtain ⟨e, found⟩ := live
      by_cases root : h ∈ roots
      · exact ⟨h, root, .refl⟩
      · have counted := acc.counted h
        have referenced := acc.positive found
        rw [Arena.references_of_get? found, List.count_eq_zero.2 root] at counted
        obtain ⟨k, f, present, link⟩ := Arena.sharers_pos_iff.1 (show 0 < c.arena.sharers h by omega)
        have above := lower present link
        have below := highest k f present
        obtain ⟨root, named, leads⟩ := ih (top - rank k) (by omega) ⟨f, present⟩ rfl
        exact ⟨root, named, leads.tail ⟨f, present, link⟩⟩

/-- Links that lead to an owner lead to its frame. -/
theorem LeadsTo.leads {frame : Frame} {e : Entry} (leadsTo : c.LeadsTo root h)
    (found : c.entry? h = some e) (own : e.storage = .owned frame) : ∃ path, c.Leads h frame root path := by
  induction leadsTo using Relation.ReflTransGen.head_induction_on with
  | refl => exact ⟨_, .owned found own⟩
  | head link _ ih =>
      obtain ⟨f, there, shares⟩ := link
      obtain ⟨path, leads⟩ := ih
      exact ⟨_, .shared there shares leads⟩

/-- All that an entry leads to is on its chain, for an owner leads on to nothing. -/
theorem LeadsTo.mem_path {frame : Frame} {owner : Handle} {path : List Handle} (leadsTo : c.LeadsTo root h)
    (leads : c.Leads owner frame root path) : h ∈ path := by
  induction leads with
  | owned found own =>
      obtain rfl | ⟨next, ⟨e, there, link⟩, -⟩ := leadsTo.cases_head
      · exact List.mem_singleton.2 rfl
      · obtain rfl := Option.some.inj (there.symm.trans found)
        cases link.symm.trans own
  | shared found shares _ ih =>
      obtain rfl | ⟨next, ⟨e, there, link⟩, rest⟩ := leadsTo.cases_head
      · exact List.mem_cons_self
      · obtain rfl := Option.some.inj (there.symm.trans found)
        obtain rfl := Storage.shared.inj (link.symm.trans shares)
        exact List.mem_cons_of_mem _ (ih rest)

/-- Each root leads to one entry without a link at most: the owner of what it shows, or itself while it
is pending. -/
theorem unlinked_le (acc : c.arena.Accounted roots) :
    c.arena.count (fun e => !e.isSharer) ≤ roots.length := by
  have ends : c.arena.count (fun e => !e.isSharer) ≤ (roots.map fun root => (c.owner? root).getD root).length := by
    refine Arena.count_le_length fun h e found unlinked => List.mem_map.2 ?_
    cases storage : e.storage with
    | pending =>
        have pending : e.isRendered = false := by simp [Entry.isRendered, storage]
        have counted := acc.counted h
        have referenced := acc.positive found
        rw [Arena.references_of_get? found, acc.sharers_eq_zero found pending] at counted
        refine ⟨h, List.count_pos_iff.1 (by omega), ?_⟩
        rw [owner?, ownerAndFrame?, ownerWithin_eq_none ((isRendered_eq found).trans pending)]
        rfl
    | owned frame =>
        obtain ⟨root, named, leadsTo⟩ := rooted acc ⟨e, found⟩
        obtain ⟨path, leads⟩ := leadsTo.leads found storage
        refine ⟨root, named, ?_⟩
        rw [owner?, ownerAndFrame?, leads.ownerWithin (leads.length_le acc)]
        rfl
    | shared owner => simp [Entry.isSharer, storage] at unlinked
  rwa [List.length_map] at ends

namespace Consistent

/-- Every live entry is led to from one that is queued or held. -/
theorem rooted (con : c.Consistent held) (live : ∃ e, c.entry? h = some e) :
    ∃ root, (root ∈ c.queue ∨ root ∈ held) ∧ c.LeadsTo root h := by
  obtain ⟨root, named, leads⟩ := Cache.rooted con.accounted live
  exact ⟨root, List.mem_append.1 named, leads⟩

/-- No more entries own a frame than are queued or held. -/
theorem owners_le (con : c.Consistent held) :
    c.arena.count Entry.isOwner ≤ c.queue.length + held.length := by
  rw [← List.length_append]
  exact (Arena.count_mono fun _ => Entry.isSharer_of_isOwner).trans (unlinked_le con.accounted)

end Consistent

end Cache
end Subtitles
