/-
# Proofs.Cache.Sharing: chains of sharing end, and what an entry shows stands

`Leads` is the chain of links that starts at an entry, with the handles it passes and the frame
at its end. A rank that falls along every link gives each rendered entry such a chain
(`leads_of_rendered`), and no chain passes a slot twice (`Leads.length_le`), so the number of
slots bounds the search for an owner. `Leads.keep` takes a chain through a move: its entries
are rendered, so none of their storages changes, and each is held by the link to it.
-/
import Subtitles.Proofs.Cache.Discipline
import Mathlib.Data.List.Nodup
namespace Subtitles

set_option autoImplicit false

namespace Cache

/-- The entry of `h` shares from `owner` by a link of its own. -/
def SharesFrom (c : Cache) (owner h : Handle) : Prop :=
  ∃ e, c.entry? h = some e ∧ e.storage = .shared owner

/-- From `h` the links lead along the path, `h` the first, to `owner`, which owns `frame`. -/
inductive Leads (c : Cache) (owner : Handle) (frame : Frame) : Handle → List Handle → Prop
  | owned {e : Entry} : c.entry? owner = some e → e.storage = .owned frame →
      Leads c owner frame owner [owner]
  | shared {h next : Handle} {e : Entry} {path : List Handle} : c.entry? h = some e →
      e.storage = .shared next → Leads c owner frame next path → Leads c owner frame h (h :: path)

variable {c b : Cache} {held roots : List Handle} {h owner : Handle} {frame : Frame} {path : List Handle}

/-! ## The search for an owner -/

/-- Enough links find what the chain leads to. -/
theorem Leads.ownerWithin (leads : c.Leads owner frame h path) {links : Nat}
    (enough : path.length ≤ links) : c.ownerWithin links h = some (owner, frame) := by
  induction leads generalizing links with
  | @owned e found own =>
      cases links with
      | zero => simp at enough
      | succ links =>
          obtain ⟨pts, n, storage⟩ := e
          simp only at own
          simp [Cache.ownerWithin, found, own]
  | @shared h next e path found link _ ih =>
      cases links with
      | zero => simp at enough
      | succ links =>
          obtain ⟨pts, n, storage⟩ := e
          simp only at link
          simp only [Cache.ownerWithin, found, link]
          exact ih (by simpa using enough)

/-- No search finds an owner for what is not rendered. -/
theorem ownerWithin_eq_none (pending : c.isRendered h = false) (links : Nat) :
    c.ownerWithin links h = none := by
  cases links with
  | zero => rfl
  | succ links =>
      unfold Cache.ownerWithin
      split
      · next found => simp [isRendered, found, Entry.isRendered] at pending
      · next found => simp [isRendered, found, Entry.isRendered] at pending
      · rfl

theorem leads_of_rendered (acc : c.arena.Accounted roots) (rendered : c.isRendered h = true) :
    ∃ owner frame path, c.Leads owner frame h path := by
  obtain ⟨rank, lower⟩ := acc.ranked
  -- Each link leads to a rendered entry of a lower rank.
  induction order : rank h using Nat.strongRecOn generalizing h with
  | ind n ih =>
      obtain ⟨e, found, done⟩ : ∃ e, c.entry? h = some e ∧ e.isRendered = true := by
        simpa [isRendered, Option.any_eq_true] using rendered
      cases storage : e.storage with
      | pending => simp [Entry.isRendered, storage] at done
      | owned frame => exact ⟨h, frame, _, .owned found storage⟩
      | shared next =>
          obtain ⟨f, there, nextDone⟩ := acc.rendered found storage
          have nextRendered : c.isRendered next = true := (isRendered_eq there).trans nextDone
          obtain ⟨owner, frame, path, leads⟩ :=
            ih (rank next) (order ▸ lower found storage) nextRendered rfl
          exact ⟨owner, frame, _, .shared found storage leads⟩

/-! ## The length of a chain -/

theorem Leads.live (leads : c.Leads owner frame h path) : ∀ k ∈ path, ∃ e, c.entry? k = some e := by
  induction leads with
  | owned found _ =>
      intro k member
      rw [List.mem_singleton.1 member]
      exact ⟨_, found⟩
  | shared found _ _ ih =>
      intro k member
      rcases List.mem_cons.1 member with rfl | later
      · exact ⟨_, found⟩
      · exact ih k later

/-- A rank that falls along every link is highest at the start of a chain. -/
theorem Leads.rank_le (leads : c.Leads owner frame h path) {rank : Handle → Nat}
    (lower : ∀ {h e o}, c.arena.get? h = some e → e.storage = .shared o → rank o < rank h) :
    ∀ k ∈ path, rank k ≤ rank h := by
  induction leads with
  | owned _ _ =>
      intro k member
      exact Nat.le_of_eq (congrArg rank (List.mem_singleton.1 member))
  | shared found link _ ih =>
      intro k member
      rcases List.mem_cons.1 member with rfl | later
      · exact Nat.le_refl _
      · exact Nat.le_trans (ih k later) (Nat.le_of_lt (lower found link))

theorem Leads.nodup (leads : c.Leads owner frame h path) (acc : c.arena.Accounted roots) :
    path.Nodup := by
  obtain ⟨rank, lower⟩ := acc.ranked
  induction leads with
  | owned _ _ => exact List.nodup_cons.2 ⟨List.not_mem_nil, List.nodup_nil⟩
  | @shared h next e path found link leads ih =>
      refine List.nodup_cons.2 ⟨fun member => ?_, ih⟩
      have back := leads.rank_le lower h member
      have down := lower found link
      omega

/-- What is on a chain is live, each entry by itself. -/
theorem Leads.length_le_live (leads : c.Leads owner frame h path) (acc : c.arena.Accounted roots) :
    path.length ≤ c.arena.live :=
  Arena.length_le_live (leads.nodup acc) leads.live

/-- A chain passes no slot twice. -/
theorem Leads.length_le (leads : c.Leads owner frame h path) (acc : c.arena.Accounted roots) :
    path.length ≤ c.arena.slots.size :=
  Nat.le_trans (leads.length_le_live acc) Array.countP_le_size

theorem Leads.frame?_eq (leads : c.Leads owner frame h path) (acc : c.arena.Accounted roots) :
    c.frame? h = some frame := by
  rw [frame?, ownerAndFrame?, leads.ownerWithin (leads.length_le acc)]
  rfl

/-- The number of slots is links enough for any search. -/
theorem ownerWithin_eq (acc : c.arena.Accounted roots) (h : Handle) {links : Nat}
    (enough : c.arena.slots.size ≤ links) : c.ownerWithin links h = c.ownerAndFrame? h := by
  rw [ownerAndFrame?]
  cases rendered : c.isRendered h with
  | true =>
      obtain ⟨owner, frame, path, leads⟩ := leads_of_rendered acc rendered
      have short := leads.length_le acc
      rw [leads.ownerWithin short, leads.ownerWithin (Nat.le_trans short enough)]
  | false => rw [ownerWithin_eq_none rendered, ownerWithin_eq_none rendered]

theorem frame?_eq_none (pending : c.isRendered h = false) : c.frame? h = none := by
  rw [frame?, ownerAndFrame?, ownerWithin_eq_none pending]
  rfl

/-- An entry shows a frame exactly when it is rendered. -/
theorem isSome_frame? (acc : c.arena.Accounted roots) (h : Handle) :
    (c.frame? h).isSome = c.isRendered h := by
  cases rendered : c.isRendered h with
  | true =>
      obtain ⟨owner, frame, path, leads⟩ := leads_of_rendered acc rendered
      rw [leads.frame?_eq acc]
      rfl
  | false =>
      rw [frame?_eq_none rendered]
      rfl

/-- No chain of links goes on for ever. -/
theorem acc_sharesFrom (acc : c.arena.Accounted roots) (h : Handle) : Acc c.SharesFrom h := by
  obtain ⟨rank, lower⟩ := acc.ranked
  refine Subrelation.accessible (r := fun o k => rank o < rank k) ?_
    (InvImage.accessible rank (Nat.lt_wfRel.wf.apply _))
  rintro o k ⟨e, found, link⟩
  exact lower found link

/-! ## Chains through a move -/

/-- A chain stays as it is where nothing on it is rendered anew and its first entry stays. -/
theorem Leads.keep {target : Option Handle} (leads : c.Leads owner frame h path)
    (keeps : Arena.Keeps target c.arena b.arena)
    (fresh : ∀ k, target = some k → c.isRendered k = false) (acc : b.arena.Accounted roots)
    (live : ∃ f, b.entry? h = some f) : b.Leads owner frame h path := by
  have untouched : ∀ {k e}, c.entry? k = some e → e.isRendered = true → target ≠ some k := by
    intro k e found rendered same
    exact absurd (fresh k same) (by simp [isRendered_eq found, rendered])
  induction leads with
  | owned found own =>
      obtain ⟨f, there⟩ := live
      have storage := (keeps _ _ _ found there).2 (untouched found (by simp [Entry.isRendered, own]))
      exact .owned there (storage.trans own)
  | shared found link _ ih =>
      obtain ⟨f, there⟩ := live
      have storage := (keeps _ _ _ found there).2 (untouched found (by simp [Entry.isRendered, link]))
      obtain ⟨o, ownerThere, -⟩ := acc.rendered there (storage.trans link)
      exact .shared there (storage.trans link) (ih ⟨o, ownerThere⟩)

theorem frame?_keep {target : Option Handle} {roots' : List Handle} (acc : c.arena.Accounted roots)
    (keeps : Arena.Keeps target c.arena b.arena)
    (fresh : ∀ k, target = some k → c.isRendered k = false) (acc' : b.arena.Accounted roots')
    (rendered : c.isRendered h = true) (live : ∃ f, b.entry? h = some f) :
    b.frame? h = c.frame? h := by
  obtain ⟨owner, frame, path, leads⟩ := leads_of_rendered acc rendered
  rw [leads.frame?_eq acc, (leads.keep keeps fresh acc' live).frame?_eq acc']

end Cache

namespace Ledger

variable {l l' : Ledger} {m : Move} {h : Handle}

/-- What a move renders was not rendered before. -/
theorem Permits.pending_target (permitted : l.Permits m) :
    ∀ k, m.target = some k → l.cache.isRendered k = false := by
  intro k target
  cases m with
  | publish h frame =>
      obtain ⟨e, found, pending⟩ := permitted
      obtain rfl := Option.some.inj target
      exact (Cache.isRendered_eq found).trans pending
  | share h owner =>
      obtain ⟨⟨e, found, pending⟩, -⟩ := permitted
      obtain rfl := Option.some.inj target
      exact (Cache.isRendered_eq found).trans pending
  | _ => simp [Move.target] at target

/-- A move leaves what a rendered entry shows, while the entry is there. -/
theorem frame?_apply (con : l.cache.Consistent l.held) (permitted : l.Permits m)
    (applied : l.apply m = .ok l') (rendered : l.cache.isRendered h = true) (live : l'.IsLive h) :
    l'.cache.frame? h = l.cache.frame? h := by
  obtain ⟨con', keeps⟩ := apply_eq_ok con permitted applied
  exact Cache.frame?_keep con.accounted keeps permitted.pending_target con'.accounted rendered live

theorem frame?_publish {frame : Frame} (con : l.cache.Consistent l.held)
    (permitted : l.Permits (.publish h frame)) (applied : l.apply (.publish h frame) = .ok l') :
    l'.cache.frame? h = some frame := by
  obtain ⟨con', -⟩ := apply_eq_ok con permitted applied
  obtain ⟨e, found, pending⟩ := permitted
  obtain ⟨b, published, -, -, arena⟩ := con.publish found pending frame
  rw [apply, published] at applied
  obtain rfl := Except.ok.inj applied
  have there : b.entry? h = some { e with storage := .owned frame } := by
    show b.arena.get? h = _
    rw [arena, Arena.get?_put_self found]
  exact (Cache.Leads.owned there rfl).frame?_eq con'.accounted

theorem frame?_share {owner : Handle} (con : l.cache.Consistent l.held)
    (permitted : l.Permits (.share h owner)) (applied : l.apply (.share h owner) = .ok l') :
    ∃ frame, l.cache.frame? owner = some frame ∧ l'.cache.frame? h = some frame := by
  obtain ⟨con', keeps⟩ := apply_eq_ok con permitted applied
  have fresh := permitted.pending_target
  obtain ⟨⟨e, found, pending⟩, holds, rendered⟩ := permitted
  obtain ⟨last, frame, path, leads⟩ := Cache.leads_of_rendered con.accounted rendered
  refine ⟨frame, leads.frame?_eq con.accounted, ?_⟩
  obtain ⟨o, ownerThere⟩ := con.live_of_held holds
  rw [Cache.isRendered_eq ownerThere] at rendered
  obtain ⟨b, shared, -, -, arena⟩ :=
    (con.of_perm (List.perm_cons_erase holds)).share found pending ownerThere rendered
  rw [apply, shared] at applied
  obtain rfl := Except.ok.inj applied
  have there : b.entry? h = some { e with storage := .shared owner } := by
    show b.arena.get? h = _
    rw [arena, Arena.get?_put_self found]
  obtain ⟨o', stays, -⟩ := con'.accounted.rendered there rfl
  have onward := leads.keep keeps fresh con'.accounted ⟨o', stays⟩
  exact (Cache.Leads.shared there rfl onward).frame?_eq con'.accounted

/-- From one ledger permitted moves lead to another, and the entry of `h` is live all the way. -/
inductive Lasts (h : Handle) : Ledger → Ledger → Prop
  | here {l : Ledger} : l.IsLive h → Lasts h l l
  | move {l l' l'' : Ledger} {m : Move} : Lasts h l l' → l'.Permits m → l'.apply m = .ok l'' →
      l''.IsLive h → Lasts h l l''

theorem Lasts.reached {n : Nat} (lasts : Lasts h l l') (reached : Reached n l) : Reached n l' := by
  induction lasts with
  | here _ => exact reached
  | move _ permitted applied _ ih => exact .move ih permitted applied

theorem Lasts.frame?_eq {n : Nat} {frame : Frame} (lasts : Lasts h l l') (reached : Reached n l)
    (shown : l.cache.frame? h = some frame) : l'.cache.frame? h = some frame := by
  induction lasts with
  | here _ => exact shown
  | @move l' l'' m lasts permitted applied live ih =>
      have con := (lasts.reached reached).consistent
      have rendered : l'.cache.isRendered h = true := by
        rw [← Cache.isSome_frame? con.accounted, ih]
        rfl
      rw [frame?_apply con permitted applied rendered live, ih]

end Ledger

/-- In every reached ledger: no chain of sharing goes on for ever, and searching for an owner
through more links than there are slots finds nothing else; what is rendered is what shows a
frame; only publishing and sharing render an entry; and from then on, as long as the entry is
live, it shows the frame published for it, or the frame that the entry shared from showed. -/
theorem frames_stand {n : Nat} {l : Ledger} (reached : Reached n l) :
    (∀ h, Acc l.cache.SharesFrom h) ∧
      (∀ h links, l.cache.arena.slots.size ≤ links →
        l.cache.ownerWithin links h = l.cache.ownerAndFrame? h) ∧
      (∀ h, (l.cache.frame? h).isSome = l.cache.isRendered h) ∧
      (∀ m l', l.Permits m → l.apply m = .ok l' → ∀ h, l.IsPending h →
        l'.cache.isRendered h = true → m.target = some h) ∧
      (∀ h frame l', l.Permits (.publish h frame) → l.apply (.publish h frame) = .ok l' →
        ∀ l'', Ledger.Lasts h l' l'' → l''.cache.frame? h = some frame) ∧
      (∀ h owner l', l.Permits (.share h owner) → l.apply (.share h owner) = .ok l' →
        ∃ frame, l.cache.frame? owner = some frame ∧
          ∀ l'', Ledger.Lasts h l' l'' → l''.cache.frame? h = some frame) := by
  have con := reached.consistent
  refine ⟨Cache.acc_sharesFrom con.accounted, fun h links enough => Cache.ownerWithin_eq con.accounted h enough,
    Cache.isSome_frame? con.accounted, ?_, ?_, ?_⟩
  · rintro m l' permitted applied h ⟨e, found, pending⟩ rendered
    obtain ⟨-, keeps⟩ := Ledger.apply_eq_ok con permitted applied
    obtain ⟨f, there, done⟩ : ∃ f, l'.cache.entry? h = some f ∧ f.isRendered = true := by
      simpa [Cache.isRendered, Option.any_eq_true] using rendered
    by_contra other
    rw [Entry.isRendered, (keeps h e f found there).2 other] at done
    exact absurd (pending.symm.trans done) (by simp)
  · intro h frame l' permitted applied l'' lasts
    exact lasts.frame?_eq (.move reached permitted applied) (Ledger.frame?_publish con permitted applied)
  · intro h owner l' permitted applied
    obtain ⟨frame, shown, shows⟩ := Ledger.frame?_share con permitted applied
    exact ⟨frame, shown, fun l'' lasts => lasts.frame?_eq (.move reached permitted applied) shows⟩

/-- Where the second entry comes to share from the first, it shows that one's frame for good. -/
theorem frames_stand_readyPair :
    Reached 2 readyPair ∧ readyPair.Permits (.share ⟨1, 0⟩ ⟨0, 0⟩) ∧
      (∀ h, Acc readyPair.cache.SharesFrom h) ∧
      ∀ l', readyPair.apply (.share ⟨1, 0⟩ ⟨0, 0⟩) = .ok l' →
        ∃ frame, readyPair.cache.frame? ⟨0, 0⟩ = some frame ∧
          ∀ l'', Ledger.Lasts ⟨1, 0⟩ l' l'' → l''.cache.frame? ⟨1, 0⟩ = some frame := by
  have permitted : readyPair.Permits (.share ⟨1, 0⟩ ⟨0, 0⟩) :=
    ⟨⟨_, rfl, rfl⟩, List.mem_singleton_self _, rfl⟩
  obtain ⟨ends, -, -, -, -, shares⟩ := frames_stand reached_readyPair
  exact ⟨reached_readyPair, permitted, ends, fun l' => shares _ _ l' permitted⟩

end Subtitles
