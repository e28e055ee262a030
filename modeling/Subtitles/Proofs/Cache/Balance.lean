/-
# Proofs.Cache.Balance: the counters add up

What was requested is queued, pruned or flushed, and it is freed or still live; storages that
were made are freed or still owned. The last two equations speak of the arena alone (`Stocked`),
so they hold between the steps of a prune or a flush as well. The first waits for the end of it:
`pruneFrom_balance` and `flushFrom_balance` say how entries move from the queue into the counters.

`Ledger.balanced_apply` is the step lemma and `Reached.balanced` the run lemma. With nothing queued and
nothing held the equations say that everything is given back (`ledger_balances`), because nothing
lives that no root leads to; for the same reason storages are bounded (`storages_bounded`).
-/
import Subtitles.Proofs.Cache.Ended
import Subtitles.Proofs.Cache.Rooted
namespace Subtitles

set_option autoImplicit false

namespace Arena

variable {α : Type} {a : Arena α}

theorem live_eq_count (a : Arena α) : a.live = a.count fun _ => true :=
  congrArg (a.slots.countP ·) (funext fun s => by cases s.value <;> rfl)

theorem live_remove {h : Handle} {v : α} (found : a.get? h = some v) : (a.remove h).live + 1 = a.live := by
  rw [live_eq_count, live_eq_count]
  exact count_remove found _

theorem live_insert (listed : a.FreeListed) (v : α) : (a.insert v).2.live = a.live + 1 := by
  rw [live_eq_count, live_eq_count]
  exact count_insert listed v _

theorem count_le_live (p : α → Bool) (a : Arena α) : a.count p ≤ a.live :=
  Array.countP_mono_left fun s _ holds => by
    obtain ⟨v, value, -⟩ := (Option.any_eq_true ..).1 holds
    rw [value]
    rfl

end Arena

namespace Cache

variable {c b : Cache} {held : List Handle} {h : Handle} {e : Entry}

/-- Without roots nothing lives. -/
theorem Consistent.live_eq_zero (con : c.Consistent held) (empty : c.queue = []) (idle : held = []) :
    c.arena.live = 0 := by
  rw [Arena.live_eq_count]
  refine Nat.eq_zero_of_not_pos fun some => ?_
  obtain ⟨h, e, found, -⟩ := Arena.count_pos_iff.1 some
  obtain ⟨root, queued | held, -⟩ := con.rooted ⟨e, found⟩
  · rw [empty] at queued
    exact absurd queued List.not_mem_nil
  · rw [idle] at held
    exact absurd held List.not_mem_nil

/-! ## Equations about the arena -/

/-- An entry that is freed takes the storage it owns with it. -/
theorem counters_free (c : Cache) (h : Handle) (e : Entry) :
    (c.free h e).counters =
      { c.counters with
        freed := c.counters.freed + 1
        storagesFreed := c.counters.storagesFreed + e.isOwner.toNat } := by
  obtain ⟨pts, n, storage⟩ := e
  cases storage <;> rfl

/-- Entries and storages are either freed or still there. What is published is an entry each. -/
structure Stocked (c : Cache) : Prop where
  entries : c.counters.requested = c.counters.freed + c.arena.live
  storages : c.counters.storagesMade = c.counters.storagesFreed + c.arena.count Entry.isOwner
  published : c.counters.published ≤ c.counters.freed + c.arena.count Entry.isRendered

namespace Stocked

theorem ofCapacity (n : Nat) : (Cache.ofCapacity n).Stocked := ⟨rfl, rfl, Nat.le_refl 0⟩

/-- The queue, and what came of entries that left it, are counted apart. -/
theorem of_counters {pruned flushed refusedFull refusedLate : Nat} {queue : List Handle} (stocked : c.Stocked) :
    Stocked { c with queue, counters := { c.counters with pruned, flushed, refusedFull, refusedLate } } :=
  ⟨stocked.entries, stocked.storages, stocked.published⟩

/-- References are not counted. -/
theorem put_references (stocked : c.Stocked) (found : c.entry? h = some e) (n : Nat) :
    (c.put h { e with references := n }).Stocked := by
  have live := Arena.live_put (w := { e with references := n }) found
  have owners : _ + e.isOwner.toNat = _ + e.isOwner.toNat :=
    Arena.count_put found Entry.isOwner { e with references := n }
  have rendered : _ + e.isRendered.toNat = _ + e.isRendered.toNat :=
    Arena.count_put found Entry.isRendered { e with references := n }
  refine ⟨?_, ?_, ?_⟩
  · exact stocked.entries.trans (congrArg _ live.symm)
  · exact stocked.storages.trans (congrArg _ (Nat.add_right_cancel owners).symm)
  · exact stocked.published.trans (Nat.add_le_add_left (Nat.add_right_cancel rendered).ge _)

theorem free (stocked : c.Stocked) (found : c.entry? h = some e) : (c.free h e).Stocked := by
  have live := Arena.live_remove found
  have owners := Arena.count_remove found Entry.isOwner
  have rendered := Arena.count_remove found Entry.isRendered
  have atMostOne := e.isRendered.toNat_le
  obtain ⟨entries, storages, published⟩ := stocked
  refine ⟨?_, ?_, ?_⟩
  · show c.counters.requested = c.counters.freed + 1 + (c.arena.remove h).live
    omega
  · rw [counters_free]
    show c.counters.storagesMade = c.counters.storagesFreed + e.isOwner.toNat + (c.arena.remove h).count _
    omega
  · rw [counters_free]
    show c.counters.published ≤ c.counters.freed + 1 + (c.arena.remove h).count _
    omega

end Stocked

/-! ## Giving references back -/

/-- Only the arena changes, and the counters of what is freed. -/
theorem release_frame (c : Cache) (h : Handle) (b : Cache) (released : c.release h = .ok b) :
    ∃ freed storagesFreed, b =
      { c with arena := b.arena, counters := { c.counters with freed, storagesFreed } } := by
  fun_induction Cache.release c h with
  | case1 => cases released
  | case2 => cases released
  | case3 c h e found last owner link ih =>
      obtain ⟨freed, storagesFreed, became⟩ := ih released
      exact ⟨freed, storagesFreed, became⟩
  | case4 c h e found last own =>
      obtain rfl := Except.ok.inj released
      exact ⟨_, _, rfl⟩
  | case5 c h e found n several =>
      obtain rfl := Except.ok.inj released
      exact ⟨_, _, rfl⟩

theorem Stocked.release (c : Cache) (h : Handle) (b : Cache) (stocked : c.Stocked)
    (released : c.release h = .ok b) : b.Stocked := by
  fun_induction Cache.release c h with
  | case1 => cases released
  | case2 => cases released
  | case3 c h e found last owner link ih => exact ih (stocked.free found) released
  | case4 c h e found last own =>
      obtain rfl := Except.ok.inj released
      exact stocked.free found
  | case5 c h e found n several =>
      obtain rfl := Except.ok.inj released
      exact stocked.put_references found (n + 1)

/-- Only queue and arena change, and the counters of what is pruned and of what is freed. -/
theorem pruneFrom_frame {pts : Binary64} {queue : List Handle} (pruned : c.pruneFrom pts queue = .ok b) :
    ∃ pruned freed storagesFreed, b = { c with
      queue := b.queue, arena := b.arena, counters := { c.counters with pruned, freed, storagesFreed } } := by
  refine pruneFrom_induction
    (P := fun d _ => ∃ pruned freed storagesFreed, d = { c with
      queue := d.queue, arena := d.arena, counters := { c.counters with pruned, freed, storagesFreed } })
    pruned ⟨_, _, _, rfl⟩ ?_ ?_
  · rintro d h rest d' ⟨_, _, _, before⟩ released
    obtain ⟨_, _, became⟩ := release_frame d h d' released
    rw [became, before]
    exact ⟨_, _, _, rfl⟩
  · rintro d left ⟨_, _, _, became⟩
    rw [became]
    exact ⟨_, _, _, rfl⟩

/-- What is pruned leaves the queue. -/
theorem pruneFrom_balance (c : Cache) (pts : Binary64) (queue : List Handle) (stocked : c.Stocked)
    (pruned : c.pruneFrom pts queue = .ok b) :
    b.Stocked ∧ b.queue.length + b.counters.pruned = queue.length + c.counters.pruned := by
  refine pruneFrom_induction
    (P := fun d left => d.Stocked ∧ left.length + d.counters.pruned = queue.length + c.counters.pruned)
    pruned ⟨stocked, rfl⟩ ?_ fun _ _ ⟨stocked, moved⟩ => ⟨stocked.of_counters, moved⟩
  rintro d h rest d' ⟨stocked, moved⟩ released
  refine ⟨(stocked.release d h d' released).of_counters, ?_⟩
  obtain ⟨_, _, became⟩ := release_frame d h d' released
  rw [became]
  simp only [List.length_cons] at moved ⊢
  omega

/-- What is flushed is counted entry by entry. -/
theorem flushFrom_balance (c : Cache) (queue : List Handle) (stocked : c.Stocked)
    (flushed : c.flushFrom queue = .ok b) :
    b.Stocked ∧ b.capacity = c.capacity ∧ b.queue = c.queue ∧
      b.counters.requested = c.counters.requested ∧ b.counters.pruned = c.counters.pruned ∧
      b.counters.flushed = c.counters.flushed + queue.length := by
  refine flushFrom_induction
    (P := fun d left => d.Stocked ∧ d.capacity = c.capacity ∧ d.queue = c.queue ∧
      d.counters.requested = c.counters.requested ∧ d.counters.pruned = c.counters.pruned ∧
      d.counters.flushed + left.length = c.counters.flushed + queue.length)
    flushed ⟨stocked, rfl, rfl, rfl, rfl, rfl⟩ ?_
  rintro d h rest d' ⟨stocked, capacity, kept, requested, pruned, counted⟩ released
  refine ⟨Stocked.release _ h d' stocked.of_counters released, ?_⟩
  obtain ⟨_, _, became⟩ := release_frame _ h d' released
  rw [became]
  refine ⟨capacity, kept, requested, pruned, ?_⟩
  simp only [List.length_cons] at counted ⊢
  omega

/-! ## Every operation -/

/-- The equations between the counters, the queue and the arena of a cache for `n` queued entries. -/
structure Balanced (n : Nat) (c : Cache) : Prop where
  capacity : c.capacity = n
  stocked : c.Stocked
  queued : c.counters.requested = c.queue.length + c.counters.pruned + c.counters.flushed

namespace Balanced

variable {n : Nat}

theorem ofCapacity (n : Nat) : Balanced n (.ofCapacity n) := ⟨rfl, .ofCapacity n, rfl⟩

theorem request (balanced : c.Balanced n) (listed : c.arena.FreeListed) (pts : Binary64) :
    (c.request pts).2.Balanced n := by
  obtain ⟨capacity, stocked, queued⟩ := balanced
  obtain ⟨_, _, refused⟩ | ⟨-, -, accepted⟩ := Consistent.request_cases c pts
  · rw [refused]
    exact ⟨capacity, stocked.of_counters, queued⟩
  · obtain ⟨entries, storages, published⟩ := stocked
    have live := Arena.live_insert listed ⟨pts, 1, .pending⟩
    have owners : _ = _ + 0 := Arena.count_insert listed ⟨pts, 1, .pending⟩ Entry.isOwner
    have rendered : _ = _ + 0 := Arena.count_insert listed ⟨pts, 1, .pending⟩ Entry.isRendered
    rw [accepted]
    refine ⟨capacity, ⟨?_, ?_, ?_⟩, ?_⟩
    · show c.counters.requested + 1 = c.counters.freed + (c.arena.insert _).2.live
      omega
    · show c.counters.storagesMade = c.counters.storagesFreed + (c.arena.insert _).2.count _
      omega
    · show c.counters.published ≤ c.counters.freed + (c.arena.insert _).2.count _
      omega
    · show c.counters.requested + 1 = (c.queue ++ [_]).length + c.counters.pruned + c.counters.flushed
      rw [List.length_append, List.length_singleton]
      omega

theorem addReference (balanced : c.Balanced n) (added : c.addReference h = .ok b) : b.Balanced n := by
  obtain ⟨e, found, rfl⟩ := addReference_cases added
  exact ⟨balanced.capacity, balanced.stocked.put_references found _, balanced.queued⟩

theorem release (balanced : c.Balanced n) (released : c.release h = .ok b) : b.Balanced n := by
  have stocked := balanced.stocked.release c h b released
  obtain ⟨freed, storagesFreed, became⟩ := release_frame c h b released
  rw [became] at stocked ⊢
  exact ⟨balanced.capacity, stocked, balanced.queued⟩

theorem prune (balanced : c.Balanced n) {pts : Binary64} (pruned : c.prune pts = .ok b) : b.Balanced n := by
  obtain ⟨stocked, moved⟩ := pruneFrom_balance c pts c.queue balanced.stocked pruned
  obtain ⟨_, _, _, became⟩ := pruneFrom_frame pruned
  have queued := balanced.queued
  rw [became] at stocked moved ⊢
  refine ⟨balanced.capacity, stocked, ?_⟩
  simp only at moved ⊢
  omega

theorem checkOut (balanced : c.Balanced n) {pts : Binary64} {hit : Option Handle}
    (checked : c.checkOut pts = .ok (hit, b)) : b.Balanced n :=
  checkOut_induction checked (fun _ pruned => balanced.prune pruned) fun _ _ _ balanced' added =>
    balanced'.addReference added

theorem flush (balanced : c.Balanced n) (flushed : c.flush = .ok b) : b.Balanced n := by
  have empty : Stocked { c with queue := [] } := balanced.stocked.of_counters
  obtain ⟨stocked, capacity, queue, requested, pruned, counted⟩ :=
    flushFrom_balance { c with queue := [] } c.queue empty flushed
  have queued := balanced.queued
  have none : b.queue.length = 0 := congrArg List.length queue
  simp only at requested pruned counted
  exact ⟨capacity.trans balanced.capacity, stocked, by omega⟩

/-- A pending entry gets its storage, and one more render is counted. -/
theorem render (balanced : c.Balanced n) (found : c.entry? h = some e) (pending : e.isRendered = false)
    (storage : Storage) (done : storage ≠ .pending) {storagesMade shared : Nat}
    (made : storagesMade = c.counters.storagesMade + (Entry.isOwner { e with storage }).toNat)
    (published : storagesMade + shared = c.counters.published + 1) :
    Balanced n { c.put h { e with storage } with
      counters := { c.counters with storagesMade, shared } } := by
  have live := Arena.live_put (w := { e with storage }) found
  have owners := Arena.count_put found Entry.isOwner { e with storage }
  have rendered := Arena.count_put found Entry.isRendered { e with storage }
  have notOwner : e.isOwner = false := by
    obtain ⟨pts, references, old⟩ := e
    cases old <;> simp_all [Entry.isRendered, Entry.isOwner]
  have isDone : Entry.isRendered { e with storage } = true := by
    simpa [Entry.isRendered] using done
  rw [notOwner, Bool.toNat_false] at owners
  rw [pending, isDone, Bool.toNat_false, Bool.toNat_true] at rendered
  obtain ⟨capacity, ⟨entries, storages, fewer⟩, queued⟩ := balanced
  refine ⟨capacity, ⟨?_, ?_, ?_⟩, queued⟩
  · show c.counters.requested = c.counters.freed + (c.arena.put h _).live
    omega
  · show storagesMade = c.counters.storagesFreed + (c.arena.put h _).count _
    omega
  · show storagesMade + shared ≤ c.counters.freed + (c.arena.put h _).count _
    omega

theorem publish (balanced : c.Balanced n) {frame : Frame} (published : c.publish h frame = .ok b) :
    b.Balanced n := by
  obtain ⟨e, found, pending, rfl⟩ := publish_cases published
  exact balanced.render found pending (.owned frame) nofun rfl (Nat.add_right_comm ..)

theorem share (balanced : c.Balanced n) {owner : Handle} (shared : c.share h owner = .ok b) :
    b.Balanced n := by
  obtain ⟨-, e, found, pending, rfl⟩ := share_cases shared
  exact balanced.render found pending (.shared owner) nofun rfl rfl

end Balanced
end Cache

/-! ## Whole runs -/

namespace Ledger

variable {n : Nat} {l l' : Ledger} {m : Move}

theorem balanced_apply (balanced : l.cache.Balanced n) (con : l.cache.Consistent l.held)
    (applied : l.apply m = .ok l') : l'.cache.Balanced n := by
  cases m with
  | request pts =>
      obtain rfl := Except.ok.inj applied
      exact balanced.request con.accounted.listed pts
  | checkOut pts =>
      obtain ⟨⟨hit, b⟩, checked, rfl⟩ := of_map_eq_ok applied
      exact balanced.checkOut checked
  | firstPending =>
      obtain rfl := Except.ok.inj applied
      exact balanced
  | addReference h =>
      obtain ⟨b, added, rfl⟩ := of_map_eq_ok applied
      exact balanced.addReference added
  | release h =>
      obtain ⟨b, released, rfl⟩ := of_map_eq_ok applied
      exact balanced.release released
  | publish h frame =>
      obtain ⟨b, published, rfl⟩ := of_map_eq_ok applied
      exact balanced.publish published
  | share h owner =>
      obtain ⟨b, shared, rfl⟩ := of_map_eq_ok applied
      exact balanced.share shared
  | flush =>
      obtain ⟨b, flushed, rfl⟩ := of_map_eq_ok applied
      exact balanced.flush flushed

end Ledger

theorem Reached.balanced {n : Nat} {l : Ledger} (reached : Reached n l) : l.cache.Balanced n := by
  induction reached with
  | start => exact .ofCapacity n
  | move before _ applied ih => exact Ledger.balanced_apply ih before.consistent applied

/-- In every reached ledger what was requested is queued, pruned or flushed; it is freed or live;
storages made are freed or owned by live entries; and no more renders were published than entries
requested. With nothing queued and nothing held, everything is freed. -/
theorem ledger_balances {n : Nat} {l : Ledger} (reached : Reached n l) :
    l.cache.stats.requested = l.cache.stats.queued + l.cache.stats.pruned + l.cache.stats.flushed ∧
      l.cache.stats.requested = l.cache.stats.freed + l.cache.stats.live ∧
      l.cache.stats.storagesMade = l.cache.stats.storagesFreed + l.cache.arena.count Entry.isOwner ∧
      l.cache.stats.published ≤ l.cache.stats.requested ∧
      (l.cache.queue = [] → l.held = [] → l.cache.stats.live = 0 ∧
        l.cache.stats.freed = l.cache.stats.requested ∧
        l.cache.stats.storagesMade = l.cache.stats.storagesFreed) := by
  obtain ⟨-, ⟨entries, storages, published⟩, queued⟩ := reached.balanced
  refine ⟨queued, entries, storages, ?_, fun empty idle => ?_⟩
  · show l.cache.counters.published ≤ l.cache.counters.requested
    have := l.cache.arena.count_le_live Entry.isRendered
    omega
  · have none : l.cache.arena.live = 0 := reached.consistent.live_eq_zero empty idle
    have noOwner := l.cache.arena.count_le_live Entry.isOwner
    refine ⟨none, ?_, ?_⟩
    · show l.cache.counters.freed = l.cache.counters.requested
      omega
    · show l.cache.counters.storagesMade = l.cache.counters.storagesFreed
      omega

/-- Two queued entries, of which the second shares from the first. -/
def linkedPair : Ledger where
  cache := {
    capacity := 2
    queue := [⟨0, 0⟩, ⟨1, 0⟩]
    arena.slots := #[⟨0, some ⟨.zero, 2, .owned (.blank 1)⟩⟩, ⟨0, some ⟨.one, 1, .shared ⟨0, 0⟩⟩⟩]
    counters := { requested := 2, storagesMade := 1, shared := 1 } }
  held := []

theorem reached_linkedPair : Reached 2 linkedPair :=
  .move (m := .share ⟨1, 0⟩ ⟨0, 0⟩) reached_readyPair ⟨⟨_, rfl, rfl⟩, List.mem_singleton_self _, rfl⟩ rfl

/-- The same after the first entry has left the queue. It lives on because of that link. -/
def sharingPair : Ledger where
  cache := {
    capacity := 2
    queue := [⟨1, 0⟩]
    arena.slots := #[⟨0, some ⟨.zero, 1, .owned (.blank 1)⟩⟩, ⟨0, some ⟨.one, 1, .shared ⟨0, 0⟩⟩⟩]
    counters := { requested := 2, pruned := 1, storagesMade := 1, shared := 1 } }
  held := []

/-- The same with the second entry flushed, which frees both. -/
def spentPair : Ledger where
  cache := {
    capacity := 2
    arena := { slots := #[⟨1, none⟩, ⟨1, none⟩], free := [0, 1] }
    counters := {
      requested := 2, pruned := 1, flushed := 1, freed := 2, storagesMade := 1, storagesFreed := 1, shared := 1 } }
  held := []

/-- A half lies between the two times, so the look-up prunes and hits nothing. -/
theorem reached_sharingPair : Reached 2 sharingPair :=
  .move (m := .checkOut ⟨0x3fe0000000000000⟩) reached_linkedPair trivial (by with_unfolding_all rfl)

theorem reached_spentPair : Reached 2 spentPair :=
  .move (m := .flush) reached_sharingPair trivial (by with_unfolding_all rfl)

theorem ledger_balances_spentPair :
    Reached 2 spentPair ∧ spentPair.cache.queue = [] ∧ spentPair.held = [] ∧
      spentPair.cache.stats.published ≤ spentPair.cache.stats.requested ∧
      spentPair.cache.stats.live = 0 ∧ spentPair.cache.stats.freed = spentPair.cache.stats.requested ∧
      spentPair.cache.stats.storagesMade = spentPair.cache.stats.storagesFreed := by
  obtain ⟨-, -, -, published, spent⟩ := ledger_balances reached_spentPair
  exact ⟨reached_spentPair, rfl, rfl, published, spent rfl rfl⟩

/-- In every reached ledger every live entry is led to by links of sharing from one that is queued
or held, and the storages that are made and not freed are no more than what is queued and held. -/
theorem storages_bounded {n : Nat} {l : Ledger} (reached : Reached n l) :
    (∀ h, l.IsLive h → ∃ root, (root ∈ l.cache.queue ∨ root ∈ l.held) ∧ l.cache.LeadsTo root h) ∧
      l.cache.counters.storagesMade = l.cache.counters.storagesFreed + l.cache.arena.count Entry.isOwner ∧
      l.cache.arena.count Entry.isOwner ≤ l.cache.queue.length + l.held.length ∧
      l.cache.arena.count Entry.isOwner ≤ n + l.held.length := by
  have con := reached.consistent
  obtain ⟨capacity, ⟨-, storages, -⟩, -⟩ := reached.balanced
  have bounded := con.owners_le
  have room := con.bounded
  exact ⟨fun h live => con.rooted live, storages, bounded, by omega⟩

/-- The first entry of the pair is neither queued nor held, and led to from the second. -/
theorem storages_bounded_sharingPair :
    Reached 2 sharingPair ∧ sharingPair.IsLive ⟨0, 0⟩ ∧
      (∃ root, (root ∈ sharingPair.cache.queue ∨ root ∈ sharingPair.held) ∧
        sharingPair.cache.LeadsTo root ⟨0, 0⟩) ∧
      sharingPair.cache.arena.count Entry.isOwner ≤ sharingPair.cache.queue.length + sharingPair.held.length := by
  obtain ⟨rooted, -, bounded, -⟩ := storages_bounded reached_sharingPair
  have live : sharingPair.IsLive ⟨0, 0⟩ := ⟨_, rfl⟩
  exact ⟨reached_sharingPair, live, rooted _ live, bounded⟩

end Subtitles
