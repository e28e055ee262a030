/-
# Proofs.Cache.Accounts: every reference is accounted for

Roots are the references from outside the arena, one handle for each: those of the queue and
those of callers. `Accounted` says that the references counted for a handle are the roots that
name it and the entries that share from it, and nothing else. With it go three facts that no
operation could keep alone: a live entry is referenced, a link of sharing leads to a rendered
entry, and the links can be ranked, so that they lead downward only.

There is one lemma for each way to write an entry: `retain`, `lower`, `dismiss`, `enter`
and `render`.
-/
import Subtitles.Cache
import Subtitles.Proofs.Arena
namespace Subtitles

set_option autoImplicit false

namespace Arena

/-- The references counted for a handle; none for one that finds nothing. -/
def references (a : Arena Entry) (h : Handle) : Nat := (a.get? h).elim 0 Entry.references

/-- The number of entries that share from `h` by a link of their own. -/
def sharers (a : Arena Entry) (h : Handle) : Nat := a.count fun e => decide (e.storage = .shared h)

/-- What is left of an arena: entries that were there before, for the same time and with the
same storage. Only their references may have changed. -/
def Leaves (a b : Arena Entry) : Prop :=
  ∀ k f, b.get? k = some f → ∃ e, a.get? k = some e ∧ e.pts = f.pts ∧ e.storage = f.storage

theorem Leaves.refl (a : Arena Entry) : a.Leaves a := fun _ f found => ⟨f, found, rfl, rfl⟩

theorem Leaves.trans {a b c : Arena Entry} (first : a.Leaves b) (second : b.Leaves c) :
    a.Leaves c := by
  intro k g found
  obtain ⟨f, foundMiddle, ptsMiddle, storageMiddle⟩ := second k g found
  obtain ⟨e, foundFirst, ptsFirst, storageFirst⟩ := first k f foundMiddle
  exact ⟨e, foundFirst, ptsFirst.trans ptsMiddle, storageFirst.trans storageMiddle⟩

theorem references_of_get? {a : Arena Entry} {h : Handle} {e : Entry} (found : a.get? h = some e) :
    a.references h = e.references := by
  simp [references, found]

theorem sharers_pos_iff {a : Arena Entry} {h : Handle} :
    0 < a.sharers h ↔ ∃ k e, a.get? k = some e ∧ e.storage = .shared h := by
  simp [sharers, count_pos_iff]

section Put

variable {a : Arena Entry} {h : Handle} {e : Entry} (found : a.get? h = some e) (f : Entry)
include found

theorem get?_put (k : Handle) : (a.put h f).get? k = if k = h then some f else a.get? k := by
  split
  · next same => rw [same, get?_put_self found]
  · next other => exact get?_put_ne found other

theorem references_put (k : Handle) :
    (a.put h f).references k = if k = h then f.references else a.references k := by
  unfold references
  rw [get?_put found f k]
  split <;> rfl

theorem sharers_put (k : Handle) :
    (a.put h f).sharers k + (decide (e.storage = .shared k)).toNat =
      a.sharers k + (decide (f.storage = .shared k)).toNat :=
  count_put found _ f

theorem leaves_put (pts : e.pts = f.pts) (storage : e.storage = f.storage) :
    a.Leaves (a.put h f) := by
  intro k g present
  rw [get?_put found f k] at present
  split at present
  · next same => exact ⟨e, same ▸ found, Option.some.inj present ▸ pts, Option.some.inj present ▸ storage⟩
  · exact ⟨g, present, rfl, rfl⟩

theorem leaves_of_put (pts : e.pts = f.pts) (storage : e.storage = f.storage) :
    (a.put h f).Leaves a := by
  intro k g present
  by_cases same : k = h
  · rw [same, found] at present
    rw [← Option.some.inj present, same]
    exact ⟨f, get?_put_self found, pts.symm, storage.symm⟩
  · exact ⟨g, (get?_put_ne found same).trans present, rfl, rfl⟩

end Put

section Remove

variable {a : Arena Entry} {h : Handle} {e : Entry} (found : a.get? h = some e)
include found

theorem get?_remove (k : Handle) : (a.remove h).get? k = if k = h then none else a.get? k := by
  split
  · next same => rw [same, get?_remove_self found]
  · next other => exact get?_remove_ne found other

theorem references_remove (k : Handle) :
    (a.remove h).references k = if k = h then 0 else a.references k := by
  unfold references
  rw [get?_remove found k]
  split <;> rfl

theorem leaves_remove : a.Leaves (a.remove h) := by
  intro k g present
  rw [get?_remove found k] at present
  split at present
  · simp at present
  · exact ⟨g, present, rfl, rfl⟩

end Remove

/-! ## The invariant -/

/-- Every reference of an arena is a root or a link of sharing. -/
structure Accounted (a : Arena Entry) (roots : List Handle) : Prop where
  listed : a.FreeListed
  counted : ∀ h, a.references h = roots.count h + a.sharers h
  positive : ∀ {h e}, a.get? h = some e → 0 < e.references
  rendered : ∀ {h e o}, a.get? h = some e → e.storage = .shared o →
    ∃ f, a.get? o = some f ∧ f.isRendered = true
  ranked : ∃ rank : Handle → Nat, ∀ {h e o}, a.get? h = some e → e.storage = .shared o →
    rank o < rank h

namespace Accounted

variable {a : Arena Entry} {roots : List Handle} {h : Handle} {e : Entry}

theorem empty : Accounted {} [] where
  listed := freeListed_empty
  counted h := by simp [references, sharers, count, get?]
  positive found := by simp [get?] at found
  rendered found := by simp [get?] at found
  ranked := ⟨fun _ => 0, fun found => by simp [get?] at found⟩

/-- Only the number of times that each handle is a root matters. -/
theorem of_count {roots' : List Handle} (acc : a.Accounted roots)
    (same : ∀ h, roots.count h = roots'.count h) : a.Accounted roots' :=
  { acc with counted := fun h => by rw [acc.counted, same] }

theorem live_of_root (acc : a.Accounted roots) (root : h ∈ roots) : ∃ e, a.get? h = some e := by
  cases found : a.get? h with
  | some e => exact ⟨e, rfl⟩
  | none =>
      have counted := acc.counted h
      have named := List.count_pos_iff.2 root
      simp only [references, found, Option.elim_none] at counted
      omega

/-- A pending entry has nobody sharing from it. -/
theorem sharers_eq_zero (acc : a.Accounted roots) (found : a.get? h = some e)
    (pending : e.isRendered = false) : a.sharers h = 0 := by
  refine Nat.eq_zero_of_not_pos fun shared => ?_
  revert shared
  rw [sharers_pos_iff]
  rintro ⟨k, f, present, link⟩
  obtain ⟨f, owner, done⟩ := acc.rendered present link
  rw [found] at owner
  rw [← Option.some.inj owner, pending] at done
  exact Bool.noConfusion done

theorem unshared {k : Handle} {f : Entry} (acc : a.Accounted roots) (found : a.get? h = some e)
    (pending : e.isRendered = false) (present : a.get? k = some f) : f.storage ≠ .shared h := by
  intro link
  have none := acc.sharers_eq_zero found pending
  have some := sharers_pos_iff.2 ⟨k, f, present, link⟩
  omega

/-- Another number of references for an entry, as the roots have it. -/
theorem recount {roots' : List Handle} {n : Nat} (acc : a.Accounted roots)
    (found : a.get? h = some e) (some : 0 < n)
    (here : n + roots.count h = e.references + roots'.count h)
    (elsewhere : ∀ k, k ≠ h → roots.count k = roots'.count k) :
    (a.put h { e with references := n }).Accounted roots' where
  listed := acc.listed.put found _
  counted k := by
    have sharers := sharers_put found { e with references := n } k
    have counted := acc.counted k
    rw [references_put found]
    split
    · next same =>
        subst same
        rw [references_of_get? found] at counted
        simp only at sharers ⊢
        omega
    · next other =>
        have := elsewhere k other
        simp only at sharers
        omega
  positive {k f} present := by
    rw [get?_put found] at present
    split at present
    · rw [← Option.some.inj present]; exact some
    · exact acc.positive present
  rendered {k f o} present link := by
    obtain ⟨old, wasThere, -, storage⟩ := leaves_put found { e with references := n } rfl rfl k f present
    obtain ⟨owner, there, done⟩ := acc.rendered wasThere (storage.trans link)
    rw [get?_put found]
    split
    · next same =>
        rw [same, found] at there
        exact ⟨_, rfl, by rw [← Option.some.inj there] at done; exact done⟩
    · exact ⟨owner, there, done⟩
  ranked := by
    obtain ⟨rank, lower⟩ := acc.ranked
    refine ⟨rank, fun {k f o} present link => ?_⟩
    obtain ⟨old, wasThere, -, storage⟩ := leaves_put found { e with references := n } rfl rfl k f present
    exact lower wasThere (storage.trans link)

/-- One more reference, for one more root. -/
theorem retain (acc : a.Accounted roots) (found : a.get? h = some e) :
    (a.put h { e with references := e.references + 1 }).Accounted (h :: roots) := by
  refine acc.recount found (Nat.succ_pos _) ?_ fun k other => ?_
  · rw [List.count_cons_self]; omega
  · rw [List.count_cons_of_ne (Ne.symm other)]

/-- One reference less, where another one is left. -/
theorem lower {n : Nat} (acc : a.Accounted (h :: roots)) (found : a.get? h = some e)
    (several : e.references = n + 2) : (a.put h { e with references := n + 1 }).Accounted roots := by
  refine acc.recount found (Nat.succ_pos _) ?_ fun k other => ?_
  · rw [List.count_cons_self]; omega
  · rw [List.count_cons_of_ne (Ne.symm other)]

/-- The last reference goes, and the entry with it. What it shared from is held by a root
instead of a link. -/
theorem dismiss (acc : a.Accounted (h :: roots)) (found : a.get? h = some e)
    (last : e.references = 1) :
    (a.remove h).Accounted (match e.storage with | .shared owner => owner :: roots | _ => roots) where
  listed := acc.listed.remove found
  counted k := by
    have freed : (a.remove h).sharers k + (decide (e.storage = .shared k)).toNat = a.sharers k :=
      count_remove found _
    have counted := acc.counted k
    have moved : (match e.storage with | .shared owner => owner :: roots | _ => roots).count k =
        roots.count k + (decide (e.storage = .shared k)).toNat := by
      split
      · next owner link => by_cases same : owner = k <;> simp [link, same]
      · next own => rw [decide_eq_false (own k)]; rfl
    rw [references_remove found, moved]
    split
    · next same =>
        subst same
        rw [references_of_get? found, List.count_cons_self] at counted
        omega
    · next other =>
        rw [List.count_cons_of_ne (Ne.symm other)] at counted
        omega
  positive {k f} present := by
    obtain ⟨old, wasThere, -, -⟩ := leaves_remove found k f present
    rw [get?_remove found] at present
    split at present
    · simp at present
    · exact acc.positive present
  rendered {k f o} present link := by
    have shared := sharers_pos_iff.2 ⟨k, f, present, link⟩
    have freed : (a.remove h).sharers o + (decide (e.storage = .shared o)).toNat = a.sharers o :=
      count_remove found _
    rw [get?_remove found] at present ⊢
    split at present
    · simp at present
    · obtain ⟨owner, there, done⟩ := acc.rendered present link
      split
      · next same =>
          have counted := acc.counted h
          rw [references_of_get? found, List.count_cons_self] at counted
          subst same
          omega
      · exact ⟨owner, there, done⟩
  ranked := by
    obtain ⟨rank, lower⟩ := acc.ranked
    refine ⟨rank, fun {k f o} present link => ?_⟩
    rw [get?_remove found] at present
    split at present
    · simp at present
    · exact lower present link

/-- A pending entry comes in, with one reference for one more root. -/
theorem enter (acc : a.Accounted roots) (pts : Binary64) :
    (a.insert ⟨pts, 1, .pending⟩).2.Accounted ((a.insert ⟨pts, 1, .pending⟩).1 :: roots) := by
  have fresh := get?_insert_fresh acc.listed ⟨pts, 1, .pending⟩
  have self := get?_insert_self acc.listed ⟨pts, 1, .pending⟩
  have others := fun k => get?_insert_ne acc.listed ⟨pts, 1, .pending⟩ (k := k)
  have counts := count_insert acc.listed ⟨pts, 1, .pending⟩
  have listed := freeListed_insert acc.listed ⟨pts, 1, .pending⟩
  revert fresh self others counts listed
  obtain ⟨new, b⟩ := a.insert ⟨pts, 1, .pending⟩
  intro fresh self others counts listed
  -- A look-up after the insertion is one before it, unless it is for the new entry.
  have before : ∀ {k f}, b.get? k = some f → f.storage ≠ .pending → a.get? k = some f := by
    intro k f present working
    by_cases same : k = new
    · rw [same, self] at present
      exact absurd (by rw [← Option.some.inj present]) working
    · rwa [others k same] at present
  refine ⟨listed, fun k => ?_, fun {k f} present => ?_, fun {k f o} present link => ?_, ?_⟩
  · have sharers : b.sharers k = a.sharers k := by
      rw [sharers, counts]; simp [sharers]
    have counted := acc.counted k
    rw [sharers]
    by_cases same : k = new
    · subst same
      simp only [references, fresh, Option.elim_none] at counted
      simp only [references, self, Option.elim_some, List.count_cons_self]
      omega
    · rw [List.count_cons_of_ne (Ne.symm same), ← counted, references, references, others k same]
  · by_cases same : k = new
    · rw [same, self] at present
      rw [← Option.some.inj present]
      exact Nat.one_pos
    · exact acc.positive (by rwa [others k same] at present)
  · obtain ⟨owner, there, done⟩ := acc.rendered (before present (by simp [link])) link
    refine ⟨owner, ?_, done⟩
    rw [others o, there]
    intro same
    rw [same, fresh] at there
    simp at there
  · obtain ⟨rank, lower⟩ := acc.ranked
    exact ⟨rank, fun present link => lower (before present (by simp [link])) link⟩

/-- The link that a pending entry gets leads down from above its owner, and none leads to the
entry yet. -/
theorem ranked_render {storage : Storage} (acc : a.Accounted roots) (found : a.get? h = some e)
    (pending : e.isRendered = false)
    (owned : ∀ o, storage = .shared o → ∃ f, a.get? o = some f ∧ f.isRendered = true) :
    ∃ rank : Handle → Nat, ∀ {k f o}, (a.put h { e with storage }).get? k = some f →
      f.storage = .shared o → rank o < rank k := by
  obtain ⟨rank, lower⟩ := acc.ranked
  obtain ⟨above, higher⟩ : ∃ n, ∀ o, storage = .shared o → rank o < n := by
    cases storage with
    | shared owner => exact ⟨rank owner + 1, fun o same => by cases same; exact Nat.lt_succ_self _⟩
    | pending => exact ⟨0, nofun⟩
    | owned => exact ⟨0, nofun⟩
  have other : ∀ o, storage = .shared o → o ≠ h := by
    intro o link same
    obtain ⟨owner, there, rendered⟩ := owned o link
    rw [same, found] at there
    rw [← Option.some.inj there, pending] at rendered
    exact Bool.noConfusion rendered
  refine ⟨fun k => if k = h then above else rank k, ?_⟩
  intro k f o present link
  rw [get?_put found] at present
  split at present
  · next same =>
      rw [← Option.some.inj present] at link
      simp only [if_pos same, if_neg (other o link)]
      exact higher o link
  · next elsewhere =>
      have ownerOther : o ≠ h := fun same => acc.unshared found pending present (same ▸ link)
      simp only [if_neg elsewhere, if_neg ownerOther]
      exact lower present link

/-- A pending entry gets its storage, and a root gives its reference up to the link if there is
one. -/
theorem render {roots' : List Handle} {storage : Storage} (acc : a.Accounted roots)
    (found : a.get? h = some e) (pending : e.isRendered = false) (done : storage ≠ .pending)
    (owned : ∀ o, storage = .shared o → ∃ f, a.get? o = some f ∧ f.isRendered = true)
    (moved : ∀ k, roots.count k = roots'.count k + (decide (storage = .shared k)).toNat) :
    (a.put h { e with storage }).Accounted roots' where
  listed := acc.listed.put found _
  counted k := by
    have sharers := sharers_put found { e with storage } k
    have counted := acc.counted k
    have unlinked : e.storage ≠ .shared k := by
      intro link
      simp [Entry.isRendered, link] at pending
    have moved := moved k
    rw [decide_eq_false unlinked] at sharers
    simp only [Bool.toNat_false] at sharers
    rw [references_put found]
    split
    · next same =>
        rw [same, references_of_get? found] at counted
        rw [same] at sharers moved ⊢
        simp only at sharers ⊢
        omega
    · omega
  positive {k f} present := by
    rw [get?_put found] at present
    split at present
    · rw [← Option.some.inj present]
      show 0 < e.references
      exact acc.positive found
    · exact acc.positive present
  rendered {k f o} present link := by
    have ownerOf : ∃ f, a.get? o = some f ∧ f.isRendered = true := by
      rw [get?_put found] at present
      split at present
      · exact owned o (by rw [← Option.some.inj present] at link; exact link)
      · exact acc.rendered present link
    obtain ⟨owner, there, rendered⟩ := ownerOf
    rw [get?_put found]
    split
    · exact ⟨_, rfl, by simpa [Entry.isRendered] using done⟩
    · exact ⟨owner, there, rendered⟩
  ranked := acc.ranked_render found pending owned

end Accounted
end Arena
end Subtitles
