/-
# Proofs.Cache.Discipline: runs of callers that keep the rules

A `Ledger` is a cache with the references that its callers hold. A `Move` is one operation;
`Permits` says when the rules allow it: references are taken on live entries only, given back
or handed over only where they are held, and a render is published once.

`apply_permitted` is the step lemma: a permitted move meets no fault, leaves the cache
consistent, and changes no storage but that of the entry it renders. `Reached.consistent` is
the run lemma.
`references_explained` says what that means for the references of an entry.
-/
import Subtitles.Cache.Job
import Subtitles.Proofs.Cache.Consistency
namespace Subtitles

set_option autoImplicit false

/-- A cache with the references that callers hold on its entries, one handle for each. -/
structure Ledger where
  cache : Cache
  held : List Handle

inductive Move
  | request (pts : Binary64)
  | checkOut (pts : Binary64)
  | firstPending
  | addReference (h : Handle)
  | release (h : Handle)
  | publish (h : Handle) (frame : Frame)
  | share (h owner : Handle)
  | flush

namespace Ledger

def opened (n : Nat) : Ledger := ⟨.ofCapacity n, []⟩

def IsLive (l : Ledger) (h : Handle) : Prop := ∃ e, l.cache.entry? h = some e

/-- The entry is live and waits for its render. -/
def IsPending (l : Ledger) (h : Handle) : Prop :=
  ∃ e, l.cache.entry? h = some e ∧ e.isRendered = false

/-- The rules that callers keep. -/
def Permits (l : Ledger) : Move → Prop
  | .addReference h => l.IsLive h
  | .release h => h ∈ l.held
  | .publish h _ => l.IsPending h
  | .share h owner => l.IsPending h ∧ owner ∈ l.held ∧ l.cache.isRendered owner = true
  | .request _ | .checkOut _ | .firstPending | .flush => True

/-- One move, and who holds what after it. To look for a pending entry changes nothing. -/
def apply (l : Ledger) : Move → Except Fault Ledger
  | .request pts => .ok { l with cache := (l.cache.request pts).2 }
  | .checkOut pts => (l.cache.checkOut pts).map fun (hit, cache) => ⟨cache, hit.toList ++ l.held⟩
  | .firstPending => .ok l
  | .addReference h => (l.cache.addReference h).map (⟨·, h :: l.held⟩)
  | .release h => (l.cache.release h).map (⟨·, l.held.erase h⟩)
  | .publish h frame => (l.cache.publish h frame).map (⟨·, l.held⟩)
  | .share h owner => (l.cache.share h owner).map (⟨·, l.held.erase owner⟩)
  | .flush => l.cache.flush.map (⟨·, l.held⟩)

/-- The references there should be on an entry: the queue's, those of the entries that share
from it, and those of callers. -/
def reasons (l : Ledger) (h : Handle) : Nat :=
  (if l.cache.isQueued h then 1 else 0) + l.cache.arena.sharers h + l.held.count h

end Ledger

/-- The ledgers that permitted moves reach from an empty cache for `n` queued entries. -/
inductive Reached (n : Nat) : Ledger → Prop
  | start : Reached n (.opened n)
  | move {l l' : Ledger} {m : Move} : Reached n l → l.Permits m → l.apply m = .ok l' → Reached n l'

/-! ## One move -/

namespace Arena

/-- Every entry that is still there is for the time it was for and has the storage it had, but
for the storage of the one in `target`. -/
def Keeps (target : Option Handle) (a b : Arena Entry) : Prop :=
  ∀ k e f, a.get? k = some e → b.get? k = some f →
    f.pts = e.pts ∧ (target ≠ some k → f.storage = e.storage)

theorem Leaves.keeps {a b : Arena Entry} (leaves : a.Leaves b) : Keeps none a b := by
  intro k e f found present
  obtain ⟨old, wasThere, pts, storage⟩ := leaves k f present
  rw [found] at wasThere
  rw [← pts, ← storage, Option.some.inj wasThere]
  exact ⟨rfl, fun _ => rfl⟩

theorem keeps_put {a : Arena Entry} {h : Handle} {e f : Entry} (found : a.get? h = some e)
    (pts : e.pts = f.pts) : Keeps (some h) a (a.put h f) := by
  intro k old new wasThere present
  rw [get?_put found] at present
  split at present
  · next same =>
      rw [same, found] at wasThere
      rw [← Option.some.inj wasThere, ← Option.some.inj present, pts]
      exact ⟨rfl, fun other => absurd (congrArg some same.symm) other⟩
  · rw [wasThere] at present
    rw [Option.some.inj present]
    exact ⟨rfl, fun _ => rfl⟩

/-- One more entry leaves all others as they are. -/
theorem keeps_of_insert {a b : Arena Entry} {h : Handle} {new : Entry} (fresh : a.get? h = none)
    (look : ∀ k, b.get? k = if k = h then some new else a.get? k) : Keeps none a b := by
  intro k e f found present
  rw [look k, if_neg, found] at present
  · rw [Option.some.inj present]
    exact ⟨rfl, fun _ => rfl⟩
  · rintro rfl
    exact absurd (found.symm.trans fresh) (by simp)

theorem keeps_request {c : Cache} {held : List Handle} (con : c.Consistent held) (pts : Binary64) :
    Keeps none c.arena (c.request pts).2.arena := by
  obtain ⟨-, ⟨-, arena, -⟩ | ⟨h, -, fresh, -, look⟩⟩ := con.request pts
  · exact arena ▸ (Leaves.refl _).keeps
  · exact keeps_of_insert fresh look

theorem Keeps.leaves {target : Option Handle} {a b c : Arena Entry} (keeps : Keeps target a b)
    (leaves : b.Leaves c) : Keeps target a c := by
  intro k e g found present
  obtain ⟨f, between, pts, storage⟩ := leaves k g present
  obtain ⟨ptsB, storageB⟩ := keeps k e f found between
  exact ⟨pts.symm.trans ptsB, fun other => storage.symm.trans (storageB other)⟩

end Arena

/-- The entry that a move renders. -/
def Move.target : Move → Option Handle
  | .publish h _ | .share h _ => some h
  | _ => none

namespace Ledger

variable {l l' : Ledger} {m : Move}

theorem apply_permitted (con : l.cache.Consistent l.held) (permitted : l.Permits m) :
    ∃ l', l.apply m = .ok l' ∧ l'.cache.Consistent l'.held ∧
      Arena.Keeps m.target l.cache.arena l'.cache.arena := by
  cases m with
  | request pts => exact ⟨_, rfl, (con.request pts).1, Arena.keeps_request con pts⟩
  | checkOut pts =>
      obtain ⟨hit, b, checked, con', leaves, -⟩ := con.checkOut pts
      exact ⟨⟨b, hit.toList ++ l.held⟩, by simp [apply, checked, Except.map], con', leaves.keeps⟩
  | firstPending => exact ⟨l, rfl, con, (Arena.Leaves.refl _).keeps⟩
  | addReference h =>
      obtain ⟨e, found⟩ := permitted
      obtain ⟨added, con'⟩ := con.addReference found
      have leaves := Arena.leaves_put found { e with references := e.references + 1 } rfl rfl
      exact ⟨⟨_, h :: l.held⟩, by rw [apply, added]; rfl, con', leaves.keeps⟩
  | release h =>
      obtain ⟨b, released, con', leaves, -⟩ := (con.of_perm (List.perm_cons_erase permitted)).release
      exact ⟨⟨b, l.held.erase h⟩, by rw [apply, released]; rfl, con', leaves.keeps⟩
  | publish h frame =>
      obtain ⟨e, found, pending⟩ := permitted
      obtain ⟨b, published, con', -, arena⟩ := con.publish found pending frame
      refine ⟨⟨b, l.held⟩, by rw [apply, published]; rfl, con', ?_⟩
      show Arena.Keeps (some h) l.cache.arena b.arena
      rw [arena]
      exact Arena.keeps_put found rfl
  | share h owner =>
      obtain ⟨⟨e, found, pending⟩, holds, rendered⟩ := permitted
      obtain ⟨o, there⟩ := con.live_of_held holds
      rw [Cache.isRendered_eq there] at rendered
      obtain ⟨b, shared, con', -, arena⟩ :=
        (con.of_perm (List.perm_cons_erase holds)).share found pending there rendered
      refine ⟨⟨b, l.held.erase owner⟩, by rw [apply, shared]; rfl, con', ?_⟩
      show Arena.Keeps (some h) l.cache.arena b.arena
      rw [arena]
      exact Arena.keeps_put found rfl
  | flush =>
      obtain ⟨b, flushed, con', leaves, -⟩ := con.flush
      exact ⟨⟨b, l.held⟩, by rw [apply, flushed]; rfl, con', leaves.keeps⟩

/-- What `apply_permitted` says of a move known to have ended. -/
theorem apply_eq_ok (con : l.cache.Consistent l.held) (permitted : l.Permits m)
    (applied : l.apply m = .ok l') :
    l'.cache.Consistent l'.held ∧ Arena.Keeps m.target l.cache.arena l'.cache.arena := by
  obtain ⟨d, ended, con', keeps⟩ := apply_permitted con permitted
  obtain rfl : d = l' := Except.ok.inj (ended.symm.trans applied)
  exact ⟨con', keeps⟩

end Ledger

/-! ## Whole runs -/

theorem Reached.consistent {n : Nat} {l : Ledger} (reached : Reached n l) :
    l.cache.Consistent l.held := by
  induction reached with
  | start => exact .ofCapacity n
  | move _ permitted applied ih => exact (Ledger.apply_eq_ok ih permitted applied).1

/-- The references counted for any handle are those there should be. -/
theorem Cache.Consistent.references_eq_reasons {l : Ledger} (con : l.cache.Consistent l.held)
    (h : Handle) : l.cache.arena.references h = l.reasons h := by
  have queued : l.cache.queue.count h = if l.cache.isQueued h then 1 else 0 := by
    rw [con.nodup_queue.count]
    simp [Cache.isQueued]
  rw [con.accounted.counted, List.count_append, queued, Ledger.reasons]
  omega

theorem Cache.Consistent.isLive_iff {l : Ledger} (con : l.cache.Consistent l.held) (h : Handle) :
    l.IsLive h ↔ 0 < l.reasons h := by
  rw [← con.references_eq_reasons h]
  constructor
  · rintro ⟨e, found⟩
    rw [Arena.references_of_get? found]
    exact con.accounted.positive found
  · intro counted
    cases found : l.cache.entry? h with
    | some e => exact ⟨e, found⟩
    | none =>
        have none : l.cache.arena.get? h = none := found
        simp [Arena.references, none] at counted

/-- In every reached ledger the references of a live entry are those there should be, one at
least. Every permitted move ends without a fault, and frees exactly the live entries for which
no reason is left after it. -/
theorem references_explained {n : Nat} {l : Ledger} (reached : Reached n l) :
    (∀ h e, l.cache.entry? h = some e → e.references = l.reasons h ∧ 1 ≤ e.references) ∧
      ∀ m, l.Permits m → ∃ l', l.apply m = .ok l' ∧
        ∀ h, l.IsLive h → (¬ l'.IsLive h ↔ l'.reasons h = 0) := by
  have con := reached.consistent
  refine ⟨fun h e found => ⟨?_, con.accounted.positive found⟩, ?_⟩
  · rw [← con.references_eq_reasons h]
    exact (Arena.references_of_get? found).symm
  · intro m permitted
    obtain ⟨l', applied, con', -⟩ := Ledger.apply_permitted con permitted
    refine ⟨l', applied, ?_⟩
    intro h _
    rw [con'.isLive_iff h]
    omega

/-- Two queued entries. The first owns a frame and is held once more, the second is pending. -/
def readyPair : Ledger where
  cache := {
    capacity := 2
    queue := [⟨0, 0⟩, ⟨1, 0⟩]
    arena.slots := #[⟨0, some ⟨.zero, 2, .owned (.blank 1)⟩⟩, ⟨0, some ⟨.one, 1, .pending⟩⟩]
    counters := { requested := 2, storagesMade := 1 } }
  held := [⟨0, 0⟩]

theorem reached_readyPair : Reached 2 readyPair := by
  have first : Reached 2 _ := .move (m := .request .zero) .start trivial rfl
  have held : Reached 2 _ := .move (m := .addReference ⟨0, 0⟩) first ⟨_, rfl⟩ rfl
  have owned : Reached 2 _ := .move (m := .publish ⟨0, 0⟩ (.blank 1)) held ⟨_, rfl, rfl⟩ rfl
  exact .move (m := .request .one) owned trivial rfl

theorem references_explained_readyPair :
    Reached 2 readyPair ∧
      (∀ h e, readyPair.cache.entry? h = some e → e.references = readyPair.reasons h ∧ 1 ≤ e.references) ∧
      ∃ l', readyPair.apply .flush = .ok l' ∧
        ∀ h, readyPair.IsLive h → (¬ l'.IsLive h ↔ l'.reasons h = 0) := by
  have explained := references_explained reached_readyPair
  exact ⟨reached_readyPair, explained.1, explained.2 .flush trivial⟩

end Subtitles
