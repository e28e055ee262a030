/-
# Proofs.Cache.Handles: a handle is given out once

An operation that inserts no entry is a row of writes: it puts entries where entries are, frees some,
and counts (`Writes`). No write takes a slot back to an earlier generation, as long as the generations
do not run out, and freeing takes it to a later one. So a handle that was given out finds its entry or
is outdated (`Arena.Dated`), and an outdated handle stays so. What is inserted gets a slot with nothing
in it, at the generation the slot is at; no handle given out before has both (`Arena.Dated.insert`).

`Issued` are the ledgers that permitted moves reach, with all handles given out on the way, and `Later` are
those they reach from there. `handles_go_stale` puts this together for them.
-/
import Subtitles.Proofs.Cache.Balance
namespace Subtitles

set_option autoImplicit false

/-! ## Slots and their generations -/

namespace Arena

variable {α : Type} {a : Arena α} {h k : Handle} {v w : α} {given gone : List Handle} {freed : Nat}

/-- The slot of the handle is at a later generation. -/
def Outdated (a : Arena α) (h : Handle) : Prop :=
  ∃ s, a.slots[h.slot]? = some s ∧ h.generation.toNat < s.generation.toNat

theorem Outdated.get?_eq_none (outdated : a.Outdated h) : a.get? h = none := by
  obtain ⟨s, present, later⟩ := outdated
  rw [get?, present]
  refine if_neg fun same => ?_
  rw [same] at later
  exact Nat.lt_irrefl _ later

/-- A write to a slot that does not take it to an earlier generation. -/
theorem Outdated.set (outdated : a.Outdated h) {g : UInt32} {new : Option α} (found : a.get? k = some v)
    (later : k.generation.toNat ≤ g.toNat) {free : List Nat} :
    Outdated ⟨a.slots.setIfInBounds k.slot ⟨g, new⟩, free⟩ h := by
  obtain ⟨s, present, before⟩ := outdated
  by_cases same : k.slot = h.slot
  · have there := slot_of_get? found
    rw [same, present] at there
    rw [Option.some.inj there] at before
    refine ⟨⟨g, new⟩, ?_, Nat.lt_of_lt_of_le before later⟩
    have below := slot_lt_of_get? found
    simp [same ▸ below, same]
  · exact ⟨s, (Array.getElem?_setIfInBounds_ne same).trans present, before⟩

section Insert

variable (listed : a.FreeListed) (v)
include listed

/-- An insertion takes a slot as it is. -/
theorem Outdated.insert (outdated : a.Outdated h) : (a.insert v).2.Outdated h := by
  obtain ⟨s, present, later⟩ := outdated
  obtain ⟨slot, rest, g, -, vacant, inserted⟩ | ⟨-, inserted⟩ := insert_cases listed v
  · rw [inserted]
    by_cases same : slot = h.slot
    · obtain ⟨below, -⟩ := Array.getElem?_eq_some_iff.1 present
      rw [same, present] at vacant
      rw [Option.some.inj vacant] at later
      exact ⟨⟨g, some v⟩, by simp [same, below], later⟩
    · exact ⟨s, (Array.getElem?_setIfInBounds_ne same).trans present, later⟩
  · rw [inserted]
    obtain ⟨below, there⟩ := Array.getElem?_eq_some_iff.1 present
    exact ⟨s, (Array.getElem?_push_lt below).trans (congrArg some there), later⟩

/-- Its handle is of the generation that the slot is at. -/
theorem not_outdated_insert : ¬ a.Outdated (a.insert v).1 := by
  rintro ⟨s, present, later⟩
  obtain ⟨slot, rest, g, -, vacant, inserted⟩ | ⟨-, inserted⟩ := insert_cases listed v
  · rw [inserted] at present later
    rw [Option.some.inj (present.symm.trans vacant)] at later
    exact Nat.lt_irrefl _ later
  · rw [inserted] at present
    exact absurd present (by simp)

end Insert

/-- No slot is at a later generation than that. -/
def Young (freed : Nat) (a : Arena α) : Prop :=
  ∀ (i : Nat) (s : Slot α), a.slots[i]? = some s → s.generation.toNat ≤ freed

theorem Young.set {g : UInt32} {now : Nat} (young : a.Young freed) (onward : freed ≤ now) (written : g.toNat ≤ now)
    (i : Nat) (new : Option α) (free : List Nat) : Young now ⟨a.slots.setIfInBounds i ⟨g, new⟩, free⟩ := by
  intro j s present
  rw [Array.getElem?_setIfInBounds] at present
  split at present
  · split at present
    · rw [← Option.some.inj present]
      exact written
    · exact absurd present nofun
  · exact Nat.le_trans (young j s present) onward

theorem Young.generation_le (young : a.Young freed) (found : a.get? h = some v) : h.generation.toNat ≤ freed :=
  young h.slot _ (slot_of_get? found)

/-- So many values were taken out. Handles that were given out find their value or are outdated, those
that are gone are outdated, and no two are the same. -/
structure Dated (given gone : List Handle) (freed : Nat) (a : Arena α) : Prop where
  young : a.Young freed
  distinct : given.Nodup
  passed : ∀ h ∈ given, (∃ v, a.get? h = some v) ∨ a.Outdated h
  outdated : ∀ h ∈ gone, a.Outdated h

theorem dated_empty : Dated [] [] 0 ({} : Arena α) :=
  ⟨fun i s present => by simp at present, .nil, List.forall_mem_nil _, List.forall_mem_nil _⟩

namespace Dated

theorem put (dated : a.Dated given gone freed) (found : a.get? h = some v) (w : α) :
    (a.put h w).Dated given gone freed where
  young := dated.young.set (Nat.le_refl _) (dated.young.generation_le found) h.slot (some w) a.free
  distinct := dated.distinct
  passed k member := by
    refine (dated.passed k member).imp ?_ fun outdated => outdated.set found (Nat.le_refl _)
    rintro ⟨old, there⟩
    by_cases same : k = h
    · subst same
      exact ⟨w, get?_put_self found⟩
    · exact ⟨old, (get?_put_ne found same).trans there⟩
  outdated k member := (dated.outdated k member).set found (Nat.le_refl _)

/-- What is taken out leaves its handle behind, as long as there is a generation left. -/
theorem remove (dated : a.Dated given gone freed) (found : a.get? h = some v) (left : freed + 1 < 2 ^ 32) :
    (a.remove h).Dated given gone (freed + 1) := by
  have bound := dated.young.generation_le found
  have next : (h.generation + 1).toNat = h.generation.toNat + 1 := by
    rw [UInt32.toNat_add, UInt32.toNat_one, Nat.mod_eq_of_lt (by omega)]
  have later : h.generation.toNat < (h.generation + 1).toNat := by omega
  refine ⟨dated.young.set (Nat.le_succ _) (by omega) h.slot none (h.slot :: a.free), dated.distinct,
    fun k member => ?_, fun k member => (dated.outdated k member).set found (Nat.le_of_lt later)⟩
  by_cases same : k = h
  · subst same
    have below := slot_lt_of_get? found
    exact .inr ⟨⟨k.generation + 1, none⟩, by simp [Arena.remove, below], later⟩
  · refine (dated.passed k member).imp ?_ fun outdated => outdated.set found (Nat.le_of_lt later)
    rintro ⟨old, there⟩
    exact ⟨old, (get?_remove_ne found same).trans there⟩

/-- A value goes where none is. What is given out for it was not given out before. -/
theorem insert (dated : a.Dated given gone freed) (listed : a.FreeListed) (v : α) :
    (a.insert v).2.Dated (given ++ [(a.insert v).1]) gone freed := by
  have fresh := get?_insert_fresh listed v
  have new : (a.insert v).1 ∉ given := by
    intro member
    rcases dated.passed _ member with ⟨old, there⟩ | outdated
    · exact absurd (fresh.symm.trans there) nofun
    · exact not_outdated_insert v listed outdated
  refine ⟨?_, ?_, ?_, fun k member => (dated.outdated k member).insert v listed⟩
  · obtain ⟨slot, rest, g, -, vacant, inserted⟩ | ⟨-, inserted⟩ := insert_cases listed v
    · rw [inserted]
      exact dated.young.set (Nat.le_refl _) (dated.young slot _ vacant) slot (some v) rest
    · rw [inserted]
      intro i s present
      rw [Array.getElem?_push] at present
      split at present
      · rw [← Option.some.inj present]
        exact Nat.zero_le _
      · exact dated.young i s present
  · rw [← List.concat_eq_append]
    exact dated.distinct.concat new
  · refine List.forall_mem_append.2 ⟨fun k member => ?_,
      List.forall_mem_singleton.2 (.inl ⟨v, get?_insert_self listed v⟩)⟩
    refine (dated.passed k member).imp ?_ fun outdated => outdated.insert v listed
    rintro ⟨old, there⟩
    refine ⟨old, (get?_insert_ne listed v ?_).trans there⟩
    rintro rfl
    exact new member

end Dated

end Arena

/-! ## What an operation writes -/

namespace Cache

variable {c b : Cache} {h : Handle} {given gone : List Handle}

/-- One write of an operation that inserts nothing. -/
inductive Write (c : Cache) : Cache → Prop
  | put {h : Handle} {e : Entry} (f : Entry) : c.entry? h = some e → Write c (c.put h f)
  | free {h : Handle} {e : Entry} : c.entry? h = some e → Write c (c.free h e)
  /-- Nothing is freed, and the arena stays as it is. -/
  | count (queue : List Handle) (counters : Counters) : counters.freed = c.counters.freed →
      Write c { c with queue, counters }

/-- Writes, one after the other. -/
def Writes : Cache → Cache → Prop := Relation.ReflTransGen Write

theorem writes_addReference (added : c.addReference h = .ok b) : c.Writes b := by
  obtain ⟨e, found, rfl⟩ := addReference_cases added
  exact .single (.put _ found)

theorem writes_release (c : Cache) (h : Handle) (b : Cache) (released : c.release h = .ok b) : c.Writes b := by
  fun_induction Cache.release c h with
  | case1 => cases released
  | case2 => cases released
  | case3 c h e found last owner link ih => exact .head (.free found) (ih released)
  | case4 c h e found last own =>
      obtain rfl := Except.ok.inj released
      exact .single (.free found)
  | case5 c h e found n several =>
      obtain rfl := Except.ok.inj released
      exact .single (.put _ found)

theorem writes_pruneFrom {pts : Binary64} {queue : List Handle} (pruned : c.pruneFrom pts queue = .ok b) :
    c.Writes b := by
  refine pruneFrom_induction (P := fun d _ => c.Writes d) pruned .refl ?_ ?_
  · intro d h rest d' written released
    exact (written.trans (writes_release d h d' released)).tail (.count d'.queue _ rfl)
  · exact fun d left written => written.tail (.count left d.counters rfl)

theorem writes_flushFrom {queue : List Handle} (flushed : c.flushFrom queue = .ok b) : c.Writes b := by
  refine flushFrom_induction (P := fun d _ => c.Writes d) flushed .refl ?_
  intro d h rest d' written released
  have counted : d.Write { d with counters.flushed := d.counters.flushed + 1 } := .count d.queue _ rfl
  exact (written.tail counted).trans (writes_release _ h d' released)

theorem writes_flush (flushed : c.flush = .ok b) : c.Writes b :=
  .head (.count [] c.counters rfl) (writes_flushFrom flushed)

theorem writes_checkOut {pts : Binary64} {hit : Option Handle} (checked : c.checkOut pts = .ok (hit, b)) :
    c.Writes b :=
  checkOut_induction checked (fun _ pruned => writes_pruneFrom pruned) fun _ _ _ written added =>
    written.trans (writes_addReference added)

theorem writes_publish {frame : Frame} (published : c.publish h frame = .ok b) : c.Writes b := by
  obtain ⟨e, found, -, rfl⟩ := publish_cases published
  exact .tail (.single (.put _ found)) (.count _ _ rfl)

theorem writes_share {owner : Handle} (shared : c.share h owner = .ok b) : c.Writes b := by
  obtain ⟨-, e, found, -, rfl⟩ := share_cases shared
  exact .tail (.single (.put _ found)) (.count _ _ rfl)

/-- As long as fewer entries were freed than there are generations. -/
def Dated (given gone : List Handle) (c : Cache) : Prop :=
  c.counters.freed < 2 ^ 32 → c.arena.Dated given gone c.counters.freed

theorem Dated.write (dated : c.Dated given gone) (write : c.Write b) : b.Dated given gone := by
  intro left
  cases write with
  | put f found => exact (dated left).put found f
  | free found => exact (dated (Nat.lt_of_succ_lt left)).remove found left
  | count queue counters same => exact same ▸ dated (same ▸ left)

theorem Dated.writes (dated : c.Dated given gone) (writes : c.Writes b) : b.Dated given gone := by
  induction writes with
  | refl => exact dated
  | tail _ write ih => exact ih.write write

theorem Dated.request (dated : c.Dated given gone) (listed : c.arena.FreeListed) (pts : Binary64) :
    (c.request pts).2.Dated (given ++ (c.request pts).1.toList) gone := by
  obtain ⟨_, _, refused⟩ | ⟨-, -, accepted⟩ := Consistent.request_cases c pts
  · rw [refused, Option.toList_none, List.append_nil]
    exact dated
  · rw [accepted]
    exact fun left => (dated left).insert listed _

/-- What lives after a write was there before. -/
theorem Write.live (write : c.Write b) (live : ∃ e, b.entry? h = some e) : ∃ e, c.entry? h = some e := by
  obtain ⟨e, there⟩ := live
  cases write with
  | @put k old f found =>
      by_cases same : h = k
      · exact ⟨old, same ▸ found⟩
      · exact ⟨e, (Arena.get?_put_ne found same).symm.trans there⟩
  | @free k old found =>
      by_cases same : h = k
      · exact ⟨old, same ▸ found⟩
      · exact ⟨e, (Arena.get?_remove_ne found same).symm.trans there⟩
  | count => exact ⟨e, there⟩

theorem Writes.live (writes : c.Writes b) (live : ∃ e, b.entry? h = some e) : ∃ e, c.entry? h = some e := by
  induction writes with
  | refl => exact live
  | tail _ write ih => exact ih (write.live live)

/-- A request finds all that lived. -/
theorem found_after_request (listed : c.arena.FreeListed) (pts : Binary64) (other : h ∉ (c.request pts).1) :
    Cache.entry? (c.request pts).2 h = c.entry? h := by
  obtain ⟨_, _, refused⟩ | ⟨-, -, accepted⟩ := Consistent.request_cases c pts
  · rw [refused]
    rfl
  · rw [accepted] at other ⊢
    exact Arena.get?_insert_ne listed _ fun same => other (congrArg some same.symm)

/-- What it gives out found nothing. -/
theorem fresh_of_request (listed : c.arena.FreeListed) {pts : Binary64} (given : h ∈ (c.request pts).1) :
    c.entry? h = none := by
  obtain ⟨_, _, refused⟩ | ⟨-, -, accepted⟩ := Consistent.request_cases c pts
  · rw [refused] at given
    exact absurd given nofun
  · rw [accepted] at given
    rw [← Option.some.inj given]
    exact Arena.get?_insert_fresh listed _

end Cache

/-! ## Runs -/

namespace Ledger

variable {l l' : Ledger} {m : Move} {given gone : List Handle} {h : Handle}

/-- The handle that a move gives out, if there is one. -/
def issues (l : Ledger) : Move → List Handle
  | .request pts => (l.cache.request pts).1.toList
  | .checkOut _ | .firstPending | .addReference _ | .release _ | .publish .. | .share .. | .flush => []

/-- Only a request inserts an entry. -/
theorem writes_apply (other : ∀ pts, m ≠ .request pts) (applied : l.apply m = .ok l') :
    l.cache.Writes l'.cache ∧ l.issues m = [] := by
  cases m with
  | request pts => exact absurd rfl (other pts)
  | checkOut pts =>
      obtain ⟨⟨hit, b⟩, checked, rfl⟩ := of_map_eq_ok applied
      exact ⟨Cache.writes_checkOut checked, rfl⟩
  | firstPending =>
      obtain rfl := Except.ok.inj applied
      exact ⟨.refl, rfl⟩
  | addReference h =>
      obtain ⟨b, added, rfl⟩ := of_map_eq_ok applied
      exact ⟨Cache.writes_addReference added, rfl⟩
  | release h =>
      obtain ⟨b, released, rfl⟩ := of_map_eq_ok applied
      exact ⟨Cache.writes_release l.cache h b released, rfl⟩
  | publish h frame =>
      obtain ⟨b, published, rfl⟩ := of_map_eq_ok applied
      exact ⟨Cache.writes_publish published, rfl⟩
  | share h owner =>
      obtain ⟨b, shared, rfl⟩ := of_map_eq_ok applied
      exact ⟨Cache.writes_share shared, rfl⟩
  | flush =>
      obtain ⟨b, flushed, rfl⟩ := of_map_eq_ok applied
      exact ⟨Cache.writes_flush flushed, rfl⟩

theorem dated_apply (con : l.cache.Consistent l.held) (dated : l.cache.Dated given gone)
    (applied : l.apply m = .ok l') : l'.cache.Dated (given ++ l.issues m) gone := by
  by_cases request : ∃ pts, m = .request pts
  · obtain ⟨pts, rfl⟩ := request
    obtain rfl := Except.ok.inj applied
    exact dated.request con.accounted.listed pts
  · obtain ⟨writes, none⟩ := writes_apply (fun pts same => request ⟨pts, same⟩) applied
    rw [none, List.append_nil]
    exact dated.writes writes

/-- What lives after a move lived before, or was given out by it. -/
theorem live_apply (con : l.cache.Consistent l.held) (applied : l.apply m = .ok l') (live : l'.IsLive h) :
    l.IsLive h ∨ h ∈ l.issues m := by
  by_cases request : ∃ pts, m = .request pts
  · obtain ⟨pts, rfl⟩ := request
    obtain rfl := Except.ok.inj applied
    by_cases new : h ∈ (l.cache.request pts).1
    · exact .inr (Option.mem_toList.2 new)
    · obtain ⟨e, there⟩ := live
      exact .inl ⟨e, (Cache.found_after_request con.accounted.listed pts new).symm.trans there⟩
  · exact .inl ((writes_apply (fun pts same => request ⟨pts, same⟩) applied).1.live live)

/-- Permitted moves lead on from one ledger to the other. -/
inductive Later (l : Ledger) : Ledger → Prop
  | here : Later l l
  | move {l' l'' : Ledger} {m : Move} : Later l l' → l'.Permits m → l'.apply m = .ok l'' → Later l l''

end Ledger

/-- The ledgers that permitted moves reach from an empty cache for `n` queued entries, with all handles that
were given out on the way. -/
inductive Issued (n : Nat) : List Handle → Ledger → Prop
  | start : Issued n [] (.opened n)
  | move {given : List Handle} {l l' : Ledger} {m : Move} : Issued n given l → l.Permits m →
      l.apply m = .ok l' → Issued n (given ++ l.issues m) l'

namespace Issued

variable {n : Nat} {given : List Handle} {l l' : Ledger} {h : Handle}

theorem reached (run : Issued n given l) : Reached n l := by
  induction run with
  | start => exact .start
  | move _ permitted applied ih => exact .move ih permitted applied

theorem dated (run : Issued n given l) : l.cache.Dated given [] := by
  induction run with
  | start => exact fun _ => Arena.dated_empty
  | move before _ applied ih => exact Ledger.dated_apply before.reached.consistent ih applied

/-- Every entry is found by the handle given out for it. -/
theorem mem_of_live (run : Issued n given l) (live : l.IsLive h) : h ∈ given := by
  induction run with
  | start =>
      obtain ⟨e, there⟩ := live
      exact absurd there nofun
  | move before _ applied ih =>
      rcases Ledger.live_apply before.reached.consistent applied live with lived | new
      · exact List.mem_append_left _ (ih lived)
      · exact List.mem_append_right _ new

/-- A handle whose entry is gone is outdated from then on. -/
theorem outdated_later (run : Issued n given l) (member : h ∈ given) (gone : ¬ l.IsLive h)
    (later : Ledger.Later l l') : l'.cache.Consistent l'.held ∧ ∃ given', l'.cache.Dated given' [h] := by
  induction later with
  | here =>
      refine ⟨run.reached.consistent, given, fun left => ?_⟩
      have dated := run.dated left
      exact { dated with outdated := List.forall_mem_singleton.2 ((dated.passed h member).resolve_left gone) }
  | move _ permitted applied ih =>
      obtain ⟨con, given', dated⟩ := ih
      exact ⟨(Ledger.apply_eq_ok con permitted applied).1, _, Ledger.dated_apply con dated applied⟩

end Issued

/-- The free list names the slots without an entry, each once, so a request writes over none that lives.
And as long as fewer than `2 ^ 32` entries were freed, no two entries ever made had one handle; and the
handle of one that was freed finds nothing, whatever is done later. -/
theorem handles_go_stale {n : Nat} {given : List Handle} {l : Ledger} (run : Issued n given l) :
    l.cache.arena.free.Nodup ∧
      (∀ i, i ∈ l.cache.arena.free ↔ ∃ g, l.cache.arena.slots[i]? = some ⟨g, none⟩) ∧
      (∀ pts h e, l.cache.entry? h = some e → Cache.entry? (l.cache.request pts).2 h = some e) ∧
      (∀ h, l.IsLive h → h ∈ given) ∧
      (l.cache.counters.freed < 2 ^ 32 → given.Nodup) ∧
      ∀ h ∈ given, ¬ l.IsLive h → ∀ l', Ledger.Later l l' → l'.cache.counters.freed < 2 ^ 32 →
        l'.cache.pts? h = none ∧ l'.cache.frame? h = none ∧ l'.cache.owner? h = none ∧
          l'.cache.isRendered h = false ∧ l'.cache.isQueued h = false := by
  have con := run.reached.consistent
  have listed := con.accounted.listed
  refine ⟨listed.nodup, listed.vacant, fun pts h e found => ?_, fun h => run.mem_of_live,
    fun left => (run.dated left).distinct, fun h member gone l' later left => ?_⟩
  · refine (Cache.found_after_request listed pts fun new => ?_).trans found
    exact absurd (found.symm.trans (Cache.fresh_of_request listed new)) (Option.some_ne_none e)
  · obtain ⟨con', given', dated⟩ := run.outdated_later member gone later
    have nothing : l'.cache.entry? h = none := ((dated left).outdated h (List.mem_singleton_self h)).get?_eq_none
    have unrendered : l'.cache.isRendered h = false := by
      rw [Cache.isRendered, nothing]
      rfl
    refine ⟨?_, Cache.frame?_eq_none unrendered, ?_, unrendered, ?_⟩
    · rw [Cache.pts?, nothing]
      rfl
    · rw [Cache.owner?, Cache.ownerAndFrame?, Cache.ownerWithin_eq_none unrendered]
      rfl
    · refine Bool.eq_false_iff.2 fun queued => ?_
      obtain ⟨e, there⟩ := con'.live_of_queued (List.contains_iff_mem.1 queued)
      exact Option.some_ne_none e (there.symm.trans nothing)

/-- Of a pair that was freed the first slot is taken again. -/
def reusedPair : Ledger where
  cache := {
    capacity := 2
    queue := [⟨0, 1⟩]
    arena := { slots := #[⟨1, some ⟨.zero, 1, .pending⟩⟩, ⟨1, none⟩], free := [1] }
    counters := {
      requested := 3, pruned := 1, flushed := 1, freed := 2, storagesMade := 1, storagesFreed := 1, shared := 1 } }
  held := []

theorem issued_reusedPair : Issued 2 [⟨0, 0⟩, ⟨1, 0⟩, ⟨0, 1⟩] reusedPair := by
  have first : Issued 2 [⟨0, 0⟩] _ := .move (m := .request .zero) .start trivial rfl
  have held : Issued 2 [⟨0, 0⟩] _ := .move (m := .addReference ⟨0, 0⟩) first ⟨_, rfl⟩ rfl
  have owned : Issued 2 [⟨0, 0⟩] _ := .move (m := .publish ⟨0, 0⟩ (.blank 1)) held ⟨_, rfl, rfl⟩ rfl
  have ready : Issued 2 [⟨0, 0⟩, ⟨1, 0⟩] readyPair := .move (m := .request .one) owned trivial rfl
  have linked : Issued 2 [⟨0, 0⟩, ⟨1, 0⟩] linkedPair :=
    .move (m := .share ⟨1, 0⟩ ⟨0, 0⟩) ready ⟨⟨_, rfl, rfl⟩, List.mem_singleton_self _, rfl⟩ rfl
  have sharing : Issued 2 [⟨0, 0⟩, ⟨1, 0⟩] sharingPair :=
    .move (m := .checkOut ⟨0x3fe0000000000000⟩) linked trivial (by with_unfolding_all rfl)
  have spent : Issued 2 [⟨0, 0⟩, ⟨1, 0⟩] spentPair := .move (m := .flush) sharing trivial (by with_unfolding_all rfl)
  exact .move (m := .request .zero) spent trivial rfl

/-- The new entry of the slot gets a frame, and the handle of the old one still finds nothing. -/
theorem handles_go_stale_reusedPair :
    Issued 2 [⟨0, 0⟩, ⟨1, 0⟩, ⟨0, 1⟩] reusedPair ∧ [(⟨0, 0⟩ : Handle), ⟨1, 0⟩, ⟨0, 1⟩].Nodup ∧
      ¬ reusedPair.IsLive ⟨0, 0⟩ ∧
      ∃ l', reusedPair.apply (.publish ⟨0, 1⟩ (.blank 2)) = .ok l' ∧ Ledger.Later reusedPair l' ∧
        l'.cache.counters.freed < 2 ^ 32 ∧ l'.cache.frame? ⟨0, 1⟩ = some (.blank 2) ∧
        l'.cache.pts? ⟨0, 0⟩ = none ∧ l'.cache.frame? ⟨0, 0⟩ = none ∧ l'.cache.owner? ⟨0, 0⟩ = none ∧
        l'.cache.isRendered ⟨0, 0⟩ = false ∧ l'.cache.isQueued ⟨0, 0⟩ = false := by
  have gone : ¬ reusedPair.IsLive ⟨0, 0⟩ := fun ⟨e, there⟩ => absurd there nofun
  obtain ⟨-, -, -, -, distinct, stale⟩ := handles_go_stale issued_reusedPair
  have later := Ledger.Later.move (m := .publish ⟨0, 1⟩ (.blank 2)) (.here (l := reusedPair)) ⟨_, rfl, rfl⟩ rfl
  exact ⟨issued_reusedPair, distinct (by decide), gone, _, rfl, later, by decide, by decide,
    stale ⟨0, 0⟩ List.mem_cons_self gone _ later (by decide)⟩

end Subtitles
