/-
# Proofs.Cache.Jobs: one render, seen from the cache

A job found by `firstPending` has a queued pending entry and, as its predecessor, a queued
rendered one (`firstPending_spec`). To begin it takes a reference on each, and to finish it
with a frame gives them back; neither meets a fault, and of all storages only that of the
entry changes (`Consistent.begin`, `Consistent.finish`). What the steps of both keep, they keep
(`begin_induction`, `finish_induction`).

`Carries` says what of the queue is left as it was: its entries with their times, and what
they show. That is how runs of a stream speak about the cache.
-/
import Subtitles.Proofs.Ended
import Subtitles.Proofs.Cache.Sharing
namespace Subtitles

set_option autoImplicit false

namespace Cache

variable {c b d : Cache} {held : List Handle} {h : Handle} {e : Entry}

/-! ## Finding a job -/

theorem firstPendingFrom_spec {before : Option Handle} {queue : List Handle} {job : Job}
    (found : c.firstPendingFrom before queue = some job) :
    job.entry ∈ queue ∧ (∃ e, c.entry? job.entry = some e ∧ e.isRendered = false) ∧
      ∀ p, job.predecessor = some p → (p ∈ queue ∨ before = some p) ∧ c.isRendered p = true := by
  induction queue generalizing before with
  | nil => simp [firstPendingFrom] at found
  | cons h rest ih =>
      simp only [firstPendingFrom] at found
      split at found
      · next pending =>
          obtain rfl := Option.some.inj found
          obtain ⟨e, present, waits⟩ := (Option.any_eq_true ..).1 pending
          refine ⟨List.mem_cons_self, ⟨e, present, by simpa using waits⟩, ?_⟩
          intro p same
          obtain ⟨before, rendered⟩ := Option.filter_eq_some_iff.1 same
          exact ⟨.inr before, rendered⟩
      · obtain ⟨member, pending, predecessor⟩ := ih found
        refine ⟨List.mem_cons_of_mem _ member, pending, ?_⟩
        intro p same
        obtain ⟨place, rendered⟩ := predecessor p same
        refine ⟨.inl ?_, rendered⟩
        rcases place with later | here
        · exact List.mem_cons_of_mem _ later
        · rw [Option.some.inj here]
          exact List.mem_cons_self

theorem firstPending_spec {job : Job} (found : c.firstPending = some job) :
    job.entry ∈ c.queue ∧ (∃ e, c.entry? job.entry = some e ∧ e.isRendered = false) ∧
      ∀ p, job.predecessor = some p → p ∈ c.queue ∧ c.isRendered p = true := by
  obtain ⟨member, pending, predecessor⟩ := firstPendingFrom_spec found
  refine ⟨member, pending, ?_⟩
  intro p same
  obtain ⟨place, rendered⟩ := predecessor p same
  exact ⟨place.resolve_right (by simp), rendered⟩

theorem rendered_of_firstPendingFrom {before : Option Handle} {queue : List Handle}
    (none : c.firstPendingFrom before queue = none) (live : ∀ h ∈ queue, ∃ e, c.entry? h = some e) :
    ∀ h ∈ queue, c.isRendered h = true := by
  induction queue generalizing before with
  | nil => exact fun h member => absurd member List.not_mem_nil
  | cons h rest ih =>
      simp only [firstPendingFrom] at none
      split at none
      · exact absurd none nofun
      · next rendered =>
          intro k member
          rcases List.mem_cons.1 member with rfl | later
          · obtain ⟨e, found⟩ := live k List.mem_cons_self
            simpa [isRendered, found] using rendered
          · exact ih none (fun k member => live k (List.mem_cons_of_mem _ member)) k later

/-- Without a job, all that is queued is rendered. -/
theorem rendered_of_firstPending (none : c.firstPending = none) (con : c.Consistent held)
    (queued : h ∈ c.queue) : c.isRendered h = true :=
  rendered_of_firstPendingFrom none (fun _ member => con.live_of_queued member) h queued

/-! ## What a queue is left with -/

/-- The entries queued in `b` were queued in `c`, for the same times, and but for the one in
`target` they are rendered and show what they did. -/
structure Carries (target : Option Handle) (c b : Cache) : Prop where
  queued : ∀ h ∈ b.queue, h ∈ c.queue
  pts : ∀ h ∈ b.queue, b.pts? h = c.pts? h
  rendered : ∀ h ∈ b.queue, target ≠ some h → b.isRendered h = c.isRendered h
  frame : ∀ h ∈ b.queue, target ≠ some h → b.frame? h = c.frame? h

theorem Carries.trans {target : Option Handle} (first : Carries none c b)
    (second : Carries target b d) : Carries target c d where
  queued h member := first.queued h (second.queued h member)
  pts h member := (second.pts h member).trans (first.pts h (second.queued h member))
  rendered h member other :=
    (second.rendered h member other).trans (first.rendered h (second.queued h member) nofun)
  frame h member other :=
    (second.frame h member other).trans (first.frame h (second.queued h member) nofun)

theorem Carries.not_mem {target : Option Handle} (carries : Carries target c b) (empty : c.queue = [])
    (h : Handle) : h ∉ b.queue := by
  intro member
  have queued := carries.queued h member
  rw [empty] at queued
  exact absurd queued List.not_mem_nil

/-- Entries queued before and after a write of at most one pending entry. -/
theorem Consistent.carries {held' : List Handle} {target : Option Handle} (con : c.Consistent held)
    (con' : b.Consistent held') (keeps : Arena.Keeps target c.arena b.arena)
    (fresh : ∀ k, target = some k → c.isRendered k = false) (part : ∀ h ∈ b.queue, h ∈ c.queue) :
    Carries target c b := by
  have storages : ∀ h ∈ b.queue, ∃ e f, c.entry? h = some e ∧ b.entry? h = some f ∧
      f.pts = e.pts ∧ (target ≠ some h → f.storage = e.storage) := by
    intro h member
    obtain ⟨e, found⟩ := con.live_of_queued (part h member)
    obtain ⟨f, there⟩ := con'.live_of_queued member
    exact ⟨e, f, found, there, keeps h e f found there⟩
  have renders : ∀ h ∈ b.queue, target ≠ some h → b.isRendered h = c.isRendered h := by
    intro h member other
    obtain ⟨e, f, found, there, -, storage⟩ := storages h member
    rw [isRendered_eq found, isRendered_eq there, Entry.isRendered, Entry.isRendered, storage other]
  refine ⟨part, fun h member => ?_, renders, ?_⟩
  · obtain ⟨e, f, found, there, pts, -⟩ := storages h member
    rw [pts?_eq found, pts?_eq there, pts]
  · intro h member other
    cases rendered : c.isRendered h with
    | true =>
        exact frame?_keep con.accounted keeps fresh con'.accounted rendered (con'.live_of_queued member)
    | false => rw [frame?_eq_none rendered, frame?_eq_none ((renders h member other).trans rendered)]

theorem Consistent.carries_of_leaves {held' : List Handle} (con : c.Consistent held)
    (con' : b.Consistent held') (leaves : c.arena.Leaves b.arena) (part : ∀ h ∈ b.queue, h ∈ c.queue) :
    Carries none c b :=
  con.carries con' leaves.keeps nofun part

/-- What is queued and rendered after a request was so before, and stays as it is. -/
theorem Consistent.of_rendered_request (con : c.Consistent held) (pts : Binary64)
    (member : h ∈ (c.request pts).2.queue) (rendered : Cache.isRendered (c.request pts).2 h = true) :
    (h ∈ c.queue ∧ c.isRendered h = true) ∧ Cache.pts? (c.request pts).2 h = c.pts? h ∧
      Cache.frame? (c.request pts).2 h = c.frame? h := by
  obtain ⟨con', became⟩ := con.request pts
  obtain ⟨e, found, done⟩ : ∃ e, Cache.entry? (c.request pts).2 h = some e ∧ e.isRendered = true := by
    simpa [isRendered, Option.any_eq_true] using rendered
  have keeps := Arena.keeps_request con pts
  have queued : h ∈ c.queue := by
    rcases became with ⟨-, -, queue⟩ | ⟨new, -, -, queue, look⟩
    · rwa [queue] at member
    · rw [queue] at member
      refine (List.mem_append.1 member).resolve_right fun atEnd => ?_
      rw [look h, if_pos (List.mem_singleton.1 atEnd)] at found
      rw [← Option.some.inj found] at done
      exact Bool.noConfusion done
  obtain ⟨old, wasThere⟩ := con.live_of_queued queued
  obtain ⟨pts', storage⟩ := keeps h old e wasThere found
  have renderedBefore : c.isRendered h = true := by
    rw [isRendered_eq wasThere, Entry.isRendered, ← storage (by simp)]
    exact done
  refine ⟨⟨queued, renderedBefore⟩, ?_, ?_⟩
  · rw [pts?_eq found, pts?_eq wasThere, pts']
  · exact frame?_keep con.accounted keeps (by simp) con'.accounted renderedBefore ⟨e, found⟩

end Cache

/-! ## One job -/

/-- The references that a begun job holds. -/
def Job.references (job : Job) : List Handle := job.predecessor.toList ++ [job.entry]

/-- What the entry of a job shows after it. -/
def Job.shown (job : Job) (c : Cache) (share : Bool) (frame : Frame) : Option Frame :=
  match job.predecessor, share with
  | some p, true => c.frame? p
  | _, _ => some frame

theorem Job.shown_congr {job : Job} {b c : Cache}
    (same : ∀ p, job.predecessor = some p → b.frame? p = c.frame? p) (share : Bool) (frame : Frame) :
    job.shown b share frame = job.shown c share frame := by
  unfold Job.shown
  cases before : job.predecessor with
  | none => rfl
  | some p =>
      cases share with
      | true => exact same p before
      | false => rfl

namespace Cache

variable {c : Cache} {held : List Handle} {job : Job}

theorem Consistent.begin (con : c.Consistent held) (live : ∃ e, c.entry? job.entry = some e)
    (predecessor : ∀ p, job.predecessor = some p → ∃ e, c.entry? p = some e) :
    ∃ b, c.begin job = .ok b ∧ b.Consistent (job.references ++ held) ∧ c.arena.Leaves b.arena ∧
      b.arena.Leaves c.arena ∧ b.queue = c.queue := by
  obtain ⟨h, before⟩ := job
  obtain ⟨e, found⟩ := live
  obtain ⟨added, con₁⟩ := con.addReference found
  have to₁ := Arena.leaves_put found { e with references := e.references + 1 } rfl rfl
  have from₁ := Arena.leaves_of_put found { e with references := e.references + 1 } rfl rfl
  cases before with
  | none =>
      refine ⟨_, ?_, con₁, to₁, from₁, rfl⟩
      rw [Cache.begin, added]
      rfl
  | some p =>
      obtain ⟨o, there⟩ := predecessor p rfl
      obtain ⟨o', there', pts, storage⟩ := from₁ p o there
      obtain ⟨added', con₂⟩ := con₁.addReference there'
      have to₂ := Arena.leaves_put there' { o' with references := o'.references + 1 } rfl rfl
      have from₂ := Arena.leaves_of_put there' { o' with references := o'.references + 1 } rfl rfl
      refine ⟨_, ?_, con₂, to₁.trans to₂, from₂.trans from₁, rfl⟩
      rw [Cache.begin, added]
      exact added'

/-- The first half of `finish`: the render goes to the entry, shared or not, and the reference on
the predecessor goes with it or back. -/
def fill (c : Cache) (job : Job) (share : Bool) (frame : Frame) : Except Fault Cache :=
  match job.predecessor, share with
  | some p, true => c.share job.entry p
  | some p, false => do (← c.publish job.entry frame).release p
  | none, _ => c.publish job.entry frame

theorem finish_eq_bind (c : Cache) (job : Job) (share : Bool) (frame : Frame) :
    c.finish job share frame = (c.fill job share frame >>= fun b => b.release job.entry) := by
  unfold finish fill
  cases job.predecessor with
  | none => rfl
  | some p =>
      cases share with
      | true => rfl
      | false => cases c.publish job.entry frame <;> rfl

theorem finish_of_fill {b : Cache} {share : Bool} {frame : Frame}
    (filled : c.fill job share frame = .ok b) : c.finish job share frame = b.release job.entry := by
  rw [finish_eq_bind, filled]
  rfl

/-- What taking references keeps, the begin of a job keeps. -/
theorem begin_induction {P : Cache → Prop} {b : Cache} (begun : c.begin job = .ok b) (start : P c)
    (add : ∀ c h b, P c → addReference c h = .ok b → P b) : P b := by
  obtain ⟨d, added, begun⟩ := bind_eq_ok_iff.1 begun
  have kept := add c job.entry d start added
  cases before : job.predecessor with
  | none =>
      simp only [before] at begun
      cases begun
      exact kept
  | some p =>
      simp only [before] at begun
      exact add d p b kept begun

/-- What publishing, sharing and giving references back keep, the end of a job keeps. -/
theorem finish_induction {P : Cache → Prop} {b : Cache} {share : Bool} {frame : Frame}
    (finished : c.finish job share frame = .ok b) (start : P c)
    (publish : ∀ c h frame b, P c → Cache.publish c h frame = .ok b → P b)
    (hang : ∀ c h owner b, P c → Cache.share c h owner = .ok b → P b)
    (release : ∀ c h b, P c → Cache.release c h = .ok b → P b) : P b := by
  have filled : ∀ d, c.fill job share frame = .ok d → P d := by
    intro d filled
    unfold Cache.fill at filled
    split at filled
    · exact hang c _ _ d start filled
    · obtain ⟨d', published, filled⟩ := bind_eq_ok_iff.1 filled
      exact release d' _ d (publish c _ frame d' start published) filled
    · exact publish c _ frame d start filled
  rw [finish_eq_bind] at finished
  obtain ⟨d, done, finished⟩ := bind_eq_ok_iff.1 finished
  exact release d _ b (filled d done) finished

theorem Consistent.fill (con : c.Consistent (job.references ++ held))
    (pending : ∃ e, c.entry? job.entry = some e ∧ e.isRendered = false)
    (predecessor : ∀ p, job.predecessor = some p → c.isRendered p = true) (share : Bool)
    (frame : Frame) :
    ∃ b, c.fill job share frame = .ok b ∧ b.Consistent (job.entry :: held) ∧ b.queue = c.queue ∧
      Arena.Keeps (some job.entry) c.arena b.arena ∧
      ∀ f, b.entry? job.entry = some f → f.storage = match job.predecessor, share with
        | some p, true => Storage.shared p
        | _, _ => .owned frame := by
  obtain ⟨h, before⟩ := job
  obtain ⟨e, found, waits⟩ := pending
  have written : ∀ (d : Cache) (storage : Storage), d.arena = c.arena.put h { e with storage } →
      Arena.Keeps (some h) c.arena d.arena ∧ ∀ f, d.entry? h = some f → f.storage = storage := by
    intro d storage arena
    rw [arena]
    refine ⟨Arena.keeps_put found rfl, ?_⟩
    intro f there
    have self := Arena.get?_put_self (w := { e with storage }) found
    rw [← arena] at self
    rw [← Option.some.inj (self.symm.trans there)]
  cases before with
  | none =>
      obtain ⟨b, published, con', queue, arena⟩ := con.publish found waits frame
      obtain ⟨keeps, storage⟩ := written b _ arena
      exact ⟨b, published, con', queue, keeps, storage⟩
  | some p =>
      obtain ⟨o, there⟩ := con.live_of_held (h := p) (by simp [Job.references])
      have rendered := predecessor p rfl
      rw [isRendered_eq there] at rendered
      cases share with
      | true =>
          obtain ⟨b, shared, con', queue, arena⟩ := con.share found waits there rendered
          obtain ⟨keeps, storage⟩ := written b _ arena
          exact ⟨b, shared, con', queue, keeps, storage⟩
      | false =>
          obtain ⟨d, published, con', queue, arena⟩ := con.publish found waits frame
          obtain ⟨keeps, storage⟩ := written d _ arena
          obtain ⟨b, released, con'', leaves, queue'⟩ := con'.release
          refine ⟨b, ?_, con'', queue'.trans queue, keeps.leaves leaves, ?_⟩
          · simp only [Cache.fill, published]
            exact released
          · intro f present
            obtain ⟨g, between, -, same⟩ := leaves h f present
            exact same.symm.trans (storage g between)

/-- The storage that a render leaves its entry with, while it is there. -/
theorem Consistent.finish_stored (con : c.Consistent (job.references ++ held))
    (pending : ∃ e, c.entry? job.entry = some e ∧ e.isRendered = false)
    (predecessor : ∀ p, job.predecessor = some p → c.isRendered p = true) (share : Bool)
    (frame : Frame) :
    ∃ b, c.finish job share frame = .ok b ∧ b.Consistent held ∧ b.queue = c.queue ∧
      Arena.Keeps (some job.entry) c.arena b.arena ∧
      ∀ f, b.entry? job.entry = some f → f.storage = match job.predecessor, share with
        | some p, true => Storage.shared p
        | _, _ => .owned frame := by
  obtain ⟨d, filled, con₁, queue₁, keeps₁, stored⟩ := con.fill pending predecessor share frame
  obtain ⟨b, released, con₂, leaves, queue₂⟩ := con₁.release
  refine ⟨b, (finish_of_fill filled).trans released, con₂, queue₂.trans queue₁, keeps₁.leaves leaves, ?_⟩
  intro f present
  obtain ⟨g, between, -, same⟩ := leaves job.entry f present
  exact same.symm.trans (stored g between)

/-- An entry that shares hangs on the chain of its predecessor. -/
theorem Leads.hang {b : Cache} {owner p : Handle} {shown : Frame} {path : List Handle} {f : Entry}
    (leads : c.Leads owner shown p path) (keeps : Arena.Keeps (some job.entry) c.arena b.arena)
    (pending : ∃ e, c.entry? job.entry = some e ∧ e.isRendered = false) (con : b.Consistent held)
    (present : b.entry? job.entry = some f) (link : f.storage = .shared p) :
    b.Leads owner shown job.entry (job.entry :: path) := by
  have fresh : ∀ k, some job.entry = some k → c.isRendered k = false := by
    intro k same
    obtain ⟨e, found, waits⟩ := pending
    rw [← Option.some.inj same, isRendered_eq found, waits]
  obtain ⟨o, there, -⟩ := con.accounted.rendered present link
  exact .shared present link (leads.keep keeps fresh con.accounted ⟨o, there⟩)

theorem Consistent.finish (con : c.Consistent (job.references ++ held))
    (pending : ∃ e, c.entry? job.entry = some e ∧ e.isRendered = false)
    (predecessor : ∀ p, job.predecessor = some p → c.isRendered p = true) (share : Bool)
    (frame : Frame) :
    ∃ b, c.finish job share frame = .ok b ∧ b.Consistent held ∧ b.queue = c.queue ∧
      Arena.Keeps (some job.entry) c.arena b.arena ∧
      (∀ f, b.entry? job.entry = some f → b.isRendered job.entry = true ∧
        b.frame? job.entry = job.shown c share frame) := by
  obtain ⟨b, finished, con', queue, keeps, stored⟩ := con.finish_stored pending predecessor share frame
  refine ⟨b, finished, con', queue, keeps, ?_⟩
  intro f present
  have kind := stored f present
  unfold Job.shown
  split at kind
  · next p shares =>
      obtain ⟨owner, shown, path, leads⟩ := leads_of_rendered con.accounted (predecessor p ‹_›)
      refine ⟨by simp [isRendered_eq present, Entry.isRendered, kind], ?_⟩
      rw [leads.frame?_eq con.accounted]
      exact (leads.hang keeps pending con' present kind).frame?_eq con'.accounted
  · refine ⟨by simp [isRendered_eq present, Entry.isRendered, kind], ?_⟩
    exact (Leads.owned present kind).frame?_eq con'.accounted

end Cache
end Subtitles
