/-
# Proofs.Cache.Cascade: all that giving back a reference does

The last reference on an entry frees it, and then the reference that it holds on the entry it shares
from is given back in turn. So the chain of sharing that begins at an entry (`Chain`) is freed from its
front, up to the first entry on which somebody else has a reference too. `GivesBack` says what that
comes to for the entries of the chain, for all others, and for the counters.

`Chain.givesBack` is by induction on the release itself. A chain passes no entry twice, so what is
freed first is not on the rest of it, and that rest is still the chain of the next entry.
-/
import Subtitles.Proofs.Cache.Balance
namespace Subtitles

set_option autoImplicit false

namespace Cache

variable {c b : Cache} {held roots : List Handle} {h k owner : Handle} {e : Entry} {path : List Handle}

/-- The entry, the one it shares from, and so on to one without a link. -/
inductive Chain (c : Cache) : Handle → List Handle → Prop
  | last {h : Handle} {e : Entry} : c.entry? h = some e → e.isSharer = false → Chain c h [h]
  | link {h owner : Handle} {e : Entry} {path : List Handle} : c.entry? h = some e →
      e.storage = .shared owner → Chain c owner path → Chain c h (h :: path)

/-- One reference is left on the entry. -/
def onLast (c : Cache) (h : Handle) : Bool := (c.entry? h).any (·.references == 1)

/-- The entry has a frame of its own. -/
def owns (c : Cache) (h : Handle) : Bool := (c.entry? h).any Entry.isOwner

/-- The first entries of a chain, as long as each is on its last reference. -/
def spent (c : Cache) (path : List Handle) : List Handle := path.takeWhile c.onLast

/-- The first entry of a chain that is not. -/
def stop? (c : Cache) (path : List Handle) : Option Handle := (path.dropWhile c.onLast).head?

/-- What becomes of a cache where a reference on the first entry of a chain is given back. -/
structure GivesBack (c b : Cache) (path : List Handle) : Prop where
  freed : ∀ k ∈ c.spent path, b.entry? k = none
  lowered : ∀ k, c.stop? path = some k → ∃ e, c.entry? k = some e ∧ 1 < e.references ∧
    b.entry? k = some { e with references := e.references - 1 }
  others : ∀ k, k ∉ c.spent path → c.stop? path ≠ some k → b.entry? k = c.entry? k
  queue : b.queue = c.queue
  capacity : b.capacity = c.capacity
  counters : b.counters = { c.counters with
    freed := c.counters.freed + (c.spent path).length
    storagesFreed := c.counters.storagesFreed + ((c.spent path).any c.owns).toNat }

/-! ## Chains -/

theorem Leads.chain {frame : Frame} (leads : c.Leads owner frame h path) : c.Chain h path := by
  induction leads with
  | owned found own => exact .last found (by simp [Entry.isSharer, own])
  | shared found link _ ih => exact .link found link ih

/-- Every live entry begins a chain, which passes no entry twice. -/
theorem exists_chain (acc : c.arena.Accounted roots) (found : c.entry? h = some e) :
    ∃ path, c.Chain h path ∧ path.Nodup := by
  cases rendered : e.isRendered with
  | true =>
      obtain ⟨_, _, path, leads⟩ := leads_of_rendered acc ((isRendered_eq found).trans rendered)
      exact ⟨path, leads.chain, leads.nodup acc⟩
  | false =>
      have pending : e.storage = .pending := by simpa [Entry.isRendered] using rendered
      exact ⟨[h], .last found (by simp [Entry.isSharer, pending]), List.nodup_singleton h⟩

namespace Chain

theorem unique {path' : List Handle} (chain : c.Chain h path) (chain' : c.Chain h path') : path = path' := by
  induction chain generalizing path' with
  | last found own =>
      cases chain' with
      | last => rfl
      | link found' link =>
          obtain rfl := Option.some.inj (found.symm.trans found')
          simp [Entry.isSharer, link] at own
  | link found link _ ih =>
      cases chain' with
      | last found' own =>
          obtain rfl := Option.some.inj (found.symm.trans found')
          simp [Entry.isSharer, link] at own
      | link found' link' chain' =>
          obtain rfl := Option.some.inj (found.symm.trans found')
          obtain rfl := Storage.shared.inj (link.symm.trans link')
          rw [ih chain']

/-- A chain is one where its entries are the same. -/
theorem congr (chain : c.Chain h path) (same : ∀ k ∈ path, b.entry? k = c.entry? k) : b.Chain h path := by
  induction chain with
  | last found own => exact .last ((same _ List.mem_cons_self).trans found) own
  | link found link _ ih =>
      exact .link ((same _ List.mem_cons_self).trans found) link
        (ih fun k member => same k (List.mem_cons_of_mem _ member))

end Chain

/-! ## One entry freed -/

theorem entry?_free (found : c.entry? h = some e) (k : Handle) :
    Cache.entry? (c.free h e) k = if k = h then none else c.entry? k :=
  Arena.get?_remove found k

theorem onLast_eq (found : c.entry? h = some e) : c.onLast h = (e.references == 1) := by
  simp [onLast, found]

theorem owns_eq (found : c.entry? h = some e) : c.owns h = e.isOwner := by
  simp [owns, found]

theorem takeWhile_congr {α : Type} {p q : α → Bool} {l : List α} (same : ∀ x ∈ l, p x = q x) :
    l.takeWhile p = l.takeWhile q := by
  induction l with
  | nil => rfl
  | cons x rest ih =>
      simp only [List.takeWhile_cons, same x List.mem_cons_self,
        ih fun y member => same y (List.mem_cons_of_mem _ member)]

section Congr

variable (same : ∀ k ∈ path, b.entry? k = c.entry? k)
include same

theorem onLast_congr : ∀ k ∈ path, b.onLast k = c.onLast k := fun k member => by
  rw [onLast, onLast, same k member]

theorem spent_congr : b.spent path = c.spent path := takeWhile_congr (onLast_congr same)

theorem stop?_congr : b.stop? path = c.stop? path := by
  rw [stop?, stop?, dropWhile_congr (onLast_congr same)]

theorem any_owns_congr : (b.spent path).any b.owns = (c.spent path).any c.owns := by
  rw [spent_congr same, Bool.eq_iff_iff, List.any_eq_true, List.any_eq_true]
  have owner : ∀ k ∈ c.spent path, b.owns k = c.owns k := fun k member => by
    rw [owns, owns, same k ((List.takeWhile_sublist _).subset member)]
  exact ⟨fun ⟨k, member, own⟩ => ⟨k, member, owner k member ▸ own⟩,
    fun ⟨k, member, own⟩ => ⟨k, member, (owner k member).symm ▸ own⟩⟩

end Congr

/-- The last reference given back on an entry with a link, and then the one on the rest of its chain. -/
theorem GivesBack.cons (found : c.entry? h = some e) (last : e.references = 1) (link : e.storage = .shared owner)
    (outside : h ∉ path) (rest : (c.free h e).GivesBack b path) : c.GivesBack b (h :: path) := by
  have same : ∀ k ∈ path, Cache.entry? (c.free h e) k = c.entry? k := fun k member => by
    rw [entry?_free found, if_neg]
    rintro rfl
    exact outside member
  have here : c.onLast h = true := by rw [onLast_eq found, last]; rfl
  have spent : c.spent (h :: path) = h :: (c.free h e).spent path := by
    rw [spent_congr same, Cache.spent, Cache.spent, List.takeWhile_cons_of_pos here]
  have stop : c.stop? (h :: path) = (c.free h e).stop? path := by
    rw [stop?_congr same, stop?, stop?, List.dropWhile_cons_of_pos here]
  have within : ∀ {k}, (c.free h e).stop? path = some k → k ∈ path := fun stops =>
    (List.dropWhile_sublist _).subset (List.mem_of_head? stops)
  obtain ⟨freed, lowered, others, queue, capacity, counters⟩ := rest
  -- The entry itself is gone, and what the rest comes to does not bring it back.
  have gone : b.entry? h = none := by
    rw [others h (fun member => outside ((List.takeWhile_sublist _).subset member)) fun stops => outside (within stops),
      entry?_free found, if_pos rfl]
  refine ⟨?_, ?_, ?_, queue, capacity, ?_⟩
  · rw [spent]
    exact List.forall_mem_cons.2 ⟨gone, freed⟩
  · intro k stops
    rw [stop] at stops
    rw [← same k (within stops)]
    exact lowered k stops
  · intro k notSpent notStop
    rw [spent, List.mem_cons, not_or] at notSpent
    rw [others k notSpent.2 (stop ▸ notStop), entry?_free found, if_neg notSpent.1]
  · have shares : e.isOwner = false := by simp [Entry.isOwner, link]
    have owned : (c.spent (h :: path)).any c.owns = ((c.free h e).spent path).any (c.free h e).owns := by
      rw [any_owns_congr same, spent, List.any_cons, owns_eq found, shares, Bool.false_or, spent_congr same]
    rw [counters, counters_free, owned, spent, List.length_cons, shares]
    simp only [Bool.toNat_false, Nat.add_zero, Counters.mk.injEq, and_true, true_and]
    omega

/-- The last reference given back on an entry without a link. -/
theorem GivesBack.free (found : c.entry? h = some e) (last : e.references = 1) : c.GivesBack (c.free h e) [h] := by
  have here : c.onLast h = true := by rw [onLast_eq found, last]; rfl
  have spent : c.spent [h] = [h] := by rw [Cache.spent, List.takeWhile_cons_of_pos here, List.takeWhile_nil]
  have stop : c.stop? [h] = none := by rw [stop?, List.dropWhile_cons_of_pos here]; rfl
  refine ⟨?_, ?_, ?_, rfl, rfl, ?_⟩
  · intro k member
    rw [spent, List.mem_singleton] at member
    rw [entry?_free found, if_pos member]
  · intro k stops
    rw [stop] at stops
    cases stops
  · intro k notSpent _
    rw [spent, List.mem_singleton] at notSpent
    rw [entry?_free found, if_neg notSpent]
  · simp [counters_free, spent, owns_eq found]

/-- A reference given back on an entry that is not on its last. -/
theorem GivesBack.lower {n : Nat} (found : c.entry? h = some e) (several : e.references = n + 2) :
    c.GivesBack (c.put h { e with references := n + 1 }) (h :: path) := by
  have here : c.onLast h = false := by simp [onLast_eq found, several]
  have spent : c.spent (h :: path) = [] := by rw [Cache.spent, List.takeWhile_cons_of_neg (by simp [here])]
  have stop : c.stop? (h :: path) = some h := by rw [stop?, List.dropWhile_cons_of_neg (by simp [here])]; rfl
  refine ⟨?_, ?_, ?_, rfl, rfl, ?_⟩
  · rw [spent]
    exact List.forall_mem_nil _
  · intro k stops
    obtain rfl := Option.some.inj (stop.symm.trans stops)
    refine ⟨e, found, by omega, ?_⟩
    rw [several]
    exact Arena.get?_put_self found
  · intro k _ notStop
    exact Arena.get?_put_ne found fun same => notStop (same ▸ stop)
  · rw [spent]
    rfl

/-! ## The whole chain -/

theorem Chain.givesBack (c : Cache) (h : Handle) (path : List Handle) (chain : c.Chain h path) (apart : path.Nodup)
    (released : c.release h = .ok b) : c.GivesBack b path := by
  fun_induction Cache.release c h generalizing path with
  | case1 => cases released
  | case2 => cases released
  | case3 c h e found last owner link ih =>
      cases chain with
      | last found' own =>
          obtain rfl := Option.some.inj (found.symm.trans found')
          simp [Entry.isSharer, link] at own
      | @link _ owner' _ path found' link' chain =>
          obtain rfl := Option.some.inj (found.symm.trans found')
          obtain rfl := Storage.shared.inj (link.symm.trans link')
          obtain ⟨outside, apart⟩ := List.nodup_cons.1 apart
          have onward : (c.free h e).Chain owner path := chain.congr fun k member => by
            rw [entry?_free found, if_neg]
            rintro rfl
            exact outside member
          exact (ih path onward apart released).cons found last link outside
  | case4 c h e found last own =>
      obtain rfl := Except.ok.inj released
      cases chain with
      | last => exact .free found last
      | link found' link =>
          obtain rfl := Option.some.inj (found.symm.trans found')
          exact absurd link (own _)
  | case5 c h e found n several =>
      obtain rfl := Except.ok.inj released
      cases chain with
      | last => exact .lower found several
      | link => exact .lower found several

end Cache

/-- In every reached ledger a caller that gives back a reference meets no fault, and then the ledger is a
reached one. Along the chain of sharing from the entry, that frees the first entries, as long as each is on its
last reference, and takes one reference from the first that is not. All other entries and the queue stay as
they were; and what is freed is counted, and the frame of its own if the last of the chain is among it. -/
theorem release_effect {n : Nat} {l : Ledger} (reached : Reached n l) {h : Handle} (holds : h ∈ l.held) :
    ∃ path b, l.cache.Chain h path ∧ path.Nodup ∧ l.cache.release h = .ok b ∧
      Reached n ⟨b, l.held.erase h⟩ ∧ l.cache.GivesBack b path := by
  have con := reached.consistent
  obtain ⟨e, found⟩ := con.live_of_held holds
  obtain ⟨path, chain, apart⟩ := Cache.exists_chain con.accounted found
  obtain ⟨b, released, -⟩ := (con.of_perm (List.perm_cons_erase holds)).release
  have applied : l.apply (.release h) = .ok ⟨b, l.held.erase h⟩ := by
    rw [Ledger.apply, released]
    rfl
  exact ⟨path, b, chain, apart, released, .move (m := .release h) reached holds applied,
    chain.givesBack l.cache h path apart released⟩

/-- Nothing is queued. Of three entries each shares from the one before it; the last is held, and so is the
first. -/
def heldChain : Ledger where
  cache := {
    capacity := 2
    arena.slots := #[⟨0, some ⟨.zero, 2, .owned (.blank 1)⟩⟩, ⟨0, some ⟨.one, 1, .shared ⟨0, 0⟩⟩⟩,
      ⟨0, some ⟨⟨0x4000000000000000⟩, 1, .shared ⟨1, 0⟩⟩⟩]
    counters := { requested := 3, pruned := 2, flushed := 1, storagesMade := 1, shared := 2 } }
  held := [⟨2, 0⟩, ⟨0, 0⟩]

/-- The same before the last is looked up and what is queued is flushed. -/
def queuedChain : Ledger where
  cache := {
    capacity := 2
    queue := [⟨1, 0⟩, ⟨2, 0⟩]
    arena.slots := #[⟨0, some ⟨.zero, 2, .owned (.blank 1)⟩⟩, ⟨0, some ⟨.one, 2, .shared ⟨0, 0⟩⟩⟩,
      ⟨0, some ⟨⟨0x4000000000000000⟩, 1, .shared ⟨1, 0⟩⟩⟩]
    counters := { requested := 3, pruned := 1, storagesMade := 1, shared := 2 } }
  held := [⟨0, 0⟩]

theorem reached_queuedChain : Reached 2 queuedChain := by
  have second : Reached 2 _ := .move (m := .checkOut .one) reached_linkedPair trivial (by with_unfolding_all rfl)
  have requested : Reached 2 _ := .move (m := .request ⟨0x4000000000000000⟩) second trivial rfl
  have shared : Reached 2 _ := .move (m := .share ⟨2, 0⟩ ⟨1, 0⟩) requested
    ⟨⟨_, rfl, rfl⟩, List.mem_singleton_self _, rfl⟩ rfl
  exact .move (m := .addReference ⟨0, 0⟩) shared ⟨_, rfl⟩ (by with_unfolding_all rfl)

theorem reached_heldChain : Reached 2 heldChain := by
  have third : Reached 2 _ :=
    .move (m := .checkOut ⟨0x4000000000000000⟩) reached_queuedChain trivial (by with_unfolding_all rfl)
  exact .move (m := .flush) third trivial (by with_unfolding_all rfl)

/-- Giving back the last frees two of them, and the first lives on. -/
theorem release_effect_heldChain :
    Reached 2 heldChain ∧ ⟨2, 0⟩ ∈ heldChain.held ∧ ∃ b, heldChain.cache.release ⟨2, 0⟩ = .ok b ∧
      b.entry? ⟨2, 0⟩ = none ∧ b.entry? ⟨1, 0⟩ = none ∧
      b.entry? ⟨0, 0⟩ = some ⟨.zero, 1, .owned (.blank 1)⟩ ∧ b.counters.freed = 2 ∧ b.counters.storagesFreed = 0 := by
  have holds : ⟨2, 0⟩ ∈ heldChain.held := List.mem_cons_self
  obtain ⟨path, b, chain, -, released, -, freed, lowered, -, -, -, counters⟩ := release_effect reached_heldChain holds
  obtain rfl : path = [⟨2, 0⟩, ⟨1, 0⟩, ⟨0, 0⟩] := chain.unique (.link rfl rfl (.link rfl rfl (.last rfl rfl)))
  obtain ⟨e, there, -, became⟩ := lowered ⟨0, 0⟩ (by decide)
  obtain rfl : e = ⟨.zero, 2, .owned (.blank 1)⟩ := (Option.some.inj there).symm
  refine ⟨reached_heldChain, holds, b, released, freed _ (by decide), freed _ (by decide), became, ?_, ?_⟩
  · rw [counters]
    decide
  · rw [counters]
    decide

end Subtitles
