/-
# Proofs.Stream.Acquire: frames out and back

An acquire adopts its geometry first, and then takes the entry for its time out of the cache
(`takeOut`). What that may come to is listed in `TakenOut`: the acquire is refused while
a frame is out; nothing is queued for the time, and the frame is rendered on demand; or an entry
is, and its frame is handed out or waited for.
-/
import Subtitles.Proofs.Geometry
import Subtitles.Proofs.Stream.Faithful
namespace Subtitles

set_option autoImplicit false

namespace Stream

open LoggedBackend (Served SoundChanges)

variable {σ : Type} [Backend σ] {fresh : σ} {since : List Call} {s : Stream σ}

/-- Take the entry for `pts` out of the cache, the geometry being adopted. -/
def takeOut (g : Geometry) (pts : Binary64) (s : Stream σ) : Lookup × Stream σ :=
  if s.current.isSome || s.reserved then (.refused (.checkout .acquiredTwice), s)
  else if g.isVoid then (.miss, s)
  else
    match s.cache.checkOut pts with
    | .error f => (.refused f, s)
    | .ok (none, cache) => (.miss, { s with cache })
    | .ok (some h, cache) => { s with cache, current := some h }.resume pts h

omit [Backend σ] in
theorem lookUp_eq {t : Stream σ} {g : Geometry} (threaded : s.threaded = true)
    (adopted : s.adopt g = .ok t) (pts : Binary64) : s.lookUp g pts = t.takeOut g pts := by
  unfold lookUp takeOut
  rw [threaded, adopted]
  rfl

/-! ## Waiting -/

theorem renderOnDemand_ne_stalled (s : Stream σ) (g : Geometry) (pts : Binary64) :
    (s.renderOnDemand g pts).1 ≠ .stalled := by
  unfold renderOnDemand
  split
  · exact nofun
  · split
    split <;> exact nofun

/-- Only an entry found in the cache is waited for. -/
theorem acquire_ne_stalled {g : Geometry} {pts : Binary64} (never : ∀ h, (s.lookUp g pts).1 ≠ .waiting h) :
    (s.acquire g pts).1 ≠ .stalled := by
  unfold acquire
  split
  · exact nofun
  · next h t looked => exact absurd (congrArg Prod.fst looked) (never h)
  · exact renderOnDemand_ne_stalled _ g pts
  · exact nofun

/-! ## Looking up -/

/-- The geometry is the same already, or becomes the present one and nothing stays queued. -/
theorem Faithful.adopt (faithful : s.Faithful fresh since) (g : Geometry) :
    (s.geometry.Same g ∧ s.adopt g = .ok s) ∨
    (¬ s.geometry.Same g ∧ ∃ b, s.adopt g = .ok { s with geometry := g, cache := b } ∧
      b.queue = [] ∧ { s with geometry := g, cache := b }.Faithful fresh s.backend.calls) := by
  unfold Stream.adopt
  split
  · next same => exact .inl ⟨same, rfl⟩
  · next other =>
      obtain ⟨b, flushed, con, empty⟩ := faithful.flush
      have renewed : { s with geometry := g, cache := b }.Faithful fresh s.backend.calls :=
        .of_queue_nil faithful.threaded faithful.served (List.suffix_refl _) con empty
      refine .inr ⟨other, b, ?_, empty, renewed⟩
      rw [flushed]
      rfl

/-- What it may come to when an entry is taken out of the cache. -/
inductive TakenOut (fresh : σ) (since : List Call) (g : Geometry) (pts : Binary64) (s : Stream σ) :
    Lookup × Stream σ → Prop
  | refused (busy : (s.current.isSome || s.reserved) = true) :
      TakenOut fresh since g pts s (.refused (.checkout .acquiredTwice), s)
  | miss {b : Cache} (free : s.reserved = false)
      (faithful : { s with cache := b }.Faithful fresh since)
      (carries : Cache.Carries none s.cache b)
      (apart : ∀ h ∈ b.queue, b.isRendered h = true → ∀ p, b.pts? h = some p → ¬ p.Same pts)
      (suffix : b.queue <:+ s.cache.queue) : TakenOut fresh since g pts s (.miss, { s with cache := b })
  | hit {b : Cache} {h : Handle} {p : Binary64} {frame : Frame} (free : s.reserved = false)
      (faithful : { s with cache := b, current := some h }.Faithful fresh since)
      (carries : Cache.Carries none s.cache b) (queued : h ∈ b.queue) (time : b.pts? h = some p)
      (same : p.Same pts) (rendered : b.isRendered h = true) (showing : b.frame? h = some frame)
      (suffix : b.queue <:+ s.cache.queue) (front : b.queue.head? = some h) :
      TakenOut fresh since g pts s (.hit ⟨pts, frame, .cached h⟩, { s with cache := b, current := some h })
  | waiting {b : Cache} {h : Handle} (visible : s.geometry.isVoid = false)
      (faithful : { s with cache := b, current := some h }.Faithful fresh since)
      (carries : Cache.Carries none s.cache b) (queued : h ∈ b.queue)
      (pending : b.isRendered h = false) (suffix : b.queue <:+ s.cache.queue) :
      TakenOut fresh since g pts s (.waiting h, { s with cache := b, current := some h })

theorem Faithful.takenOut (faithful : s.Faithful fresh since) (g : Geometry)
    (sameVoid : s.geometry.isVoid = g.isVoid) (pts : Binary64) :
    TakenOut fresh since g pts s (s.takeOut g pts) := by
  unfold takeOut
  split
  · next busy => exact .refused busy
  · next out =>
      obtain ⟨noFrame, free⟩ : s.current = none ∧ s.reserved = false := by simpa using out
      obtain ⟨lost, con⟩ := faithful.cache
      split
      · next void =>
          have carries := con.carries_of_leaves con (.refl _) fun h member => member
          refine .miss free faithful carries (fun h member rendered => ?_) (List.suffix_refl _)
          obtain ⟨time, frame, shows⟩ := faithful.shown h member rendered
          exact absurd shows.visible (by simp [sameVoid, void])
      · next visible =>
          obtain ⟨hit, b, checked, conB, leaves, queue, found, missed⟩ := con.checkOut pts
          have suffix : b.queue <:+ s.cache.queue := queue ▸ List.dropWhile_suffix _
          have carries : Cache.Carries none s.cache b :=
            con.carries_of_leaves conB leaves fun h member => suffix.subset member
          rw [noFrame] at conB
          rw [checked]
          cases hit with
          | none =>
              have kept := faithful.carry carries none ⟨lost, conB⟩
              rw [← noFrame] at kept
              exact .miss free kept carries (fun h member _ => missed rfl h member) suffix
          | some h =>
              obtain ⟨front, p, time, same⟩ := found h rfl
              have member := List.mem_of_head? front
              have kept := faithful.carry carries (some h) ⟨lost, conB⟩
              have showing := Cache.isSome_frame? conB.accounted h
              simp only [resume]
              cases shown : b.frame? h with
              | some frame =>
                  rw [shown] at showing
                  exact .hit free kept carries member time same showing.symm shown suffix front
              | none =>
                  rw [shown] at showing
                  have queued : b.isQueued h = true := by simpa [Cache.isQueued] using member
                  rw [queued]
                  exact .waiting (by simpa [sameVoid] using visible) kept carries member showing.symm suffix

/-! ## The frame of an acquire -/

/-- A render with nothing to wait for. -/
theorem renderOnDemand_eq {g : Geometry} {pts : Binary64} {frame : Frame}
    (free : s.reserved = false) (answer : (Backend.render g pts s.backend.state).1 = .ok frame) :
    s.renderOnDemand g pts = (.frame ⟨pts, frame, .reserved⟩,
      { s with backend := (s.backend.render .demand g pts).2, reserved := true }) := by
  unfold renderOnDemand
  rw [free, if_neg Bool.false_ne_true]
  obtain ⟨frame', rendered, logged⟩ | ⟨f, faulted, -⟩ := s.backend.render_cases .demand g pts
  · rw [rendered] at answer
    obtain rfl := Except.ok.inj answer
    simp only [logged]
  · rw [faulted] at answer
    cases answer

/-- A frame on demand is never one from the cache. -/
theorem Faithful.renderOnDemand (faithful : s.Faithful fresh since) (g : Geometry) (pts : Binary64)
    (apart : ∀ h ∈ s.cache.queue, s.cache.isRendered h = true → ∀ p, s.cache.pts? h = some p →
      ¬ p.Same pts) :
    (s.renderOnDemand g pts).2.Faithful fresh since ∧ (s.renderOnDemand g pts).2.cache = s.cache ∧
      ∀ f, (s.renderOnDemand g pts).1 = .frame f → f.isCached = false := by
  have demanded := faithful.demand g pts apart
  unfold Stream.renderOnDemand
  split
  · exact ⟨faithful, rfl, nofun⟩
  · cases answer : s.backend.render .demand g pts with
    | mk frame backend =>
        rw [answer] at demanded
        cases frame with
        | ok frame =>
            refine ⟨⟨demanded.threaded, demanded.served, demanded.log, demanded.cache, demanded.shown⟩, rfl, ?_⟩
            rintro f ⟨⟩
            rfl
        | error f =>
            exact ⟨⟨demanded.threaded, demanded.served, demanded.log, demanded.cache, demanded.shown⟩, rfl, nofun⟩

/-- A cached frame of an acquire is one that the worker got for that time and geometry. -/
theorem Faithful.acquire_same {g : Geometry} (faithful : s.Faithful fresh since)
    (same : s.geometry.Same g) (pts : Binary64) :
    (s.acquire g pts).2.Faithful fresh since ∧
      ∀ f, (s.acquire g pts).1 = .frame f → f.isCached = true →
        ∃ p got, p.Same pts ∧ got.SameContent f.frame ∧
          RenderedAhead since s.backend.calls p s.geometry got := by
  have adopted : s.adopt g = .ok s := by simp [Stream.adopt, same]
  have out := faithful.takenOut g same.isVoid_eq pts
  unfold Stream.acquire
  rw [lookUp_eq faithful.threaded adopted pts]
  generalize s.takeOut g pts = result at out
  cases out with
  | refused busy => exact ⟨faithful, nofun⟩
  | miss free faithful' carries apart =>
      obtain ⟨after, -, onDemand⟩ := faithful'.renderOnDemand g pts apart
      refine ⟨after, ?_⟩
      intro f answer cached
      rw [onDemand f answer] at cached
      exact absurd cached nofun
  | hit free faithful' carries queued time samePts rendered showing =>
      refine ⟨faithful', ?_⟩
      rintro f ⟨⟩ -
      obtain ⟨p, frame, shows⟩ := faithful'.shown _ queued rendered
      obtain ⟨got, ahead, content⟩ := shows.ahead
      rw [shows.time] at time
      rw [shows.showing] at showing
      obtain rfl := Option.some.inj time
      obtain rfl := Option.some.inj showing
      exact ⟨p, got, samePts, content, ahead⟩
  | waiting visible faithful' carries queued pending => exact ⟨faithful', nofun⟩

/-- With another geometry nothing comes from the cache, and nothing stays queued. -/
theorem Faithful.acquire_other {g : Geometry} (faithful : s.Faithful fresh since)
    (other : ¬ s.geometry.Same g) (pts : Binary64) :
    (s.acquire g pts).2.Faithful fresh (s.acquire g pts).2.backend.calls ∧
      s.backend.calls <:+ (s.acquire g pts).2.backend.calls ∧
      ∀ f, (s.acquire g pts).1 = .frame f → f.isCached = false := by
  obtain ⟨same, -⟩ | ⟨-, b, adopted, empty, faithful₁⟩ := faithful.adopt g
  · exact absurd same other
  · have out := faithful₁.takenOut g rfl pts
    unfold Stream.acquire
    rw [lookUp_eq faithful.threaded adopted pts]
    generalize takeOut g pts _ = result at out
    cases out with
    | refused busy => exact ⟨faithful₁, faithful₁.log, nofun⟩
    | miss free faithful₂ carries apart =>
        obtain ⟨after, cache, onDemand⟩ := faithful₂.renderOnDemand g pts apart
        refine ⟨.of_queue_nil after.threaded after.served (List.suffix_refl _) after.cache ?_, after.log, onDemand⟩
        rw [cache]
        exact List.eq_nil_iff_forall_not_mem.2 (carries.not_mem empty)
    | hit free faithful₂ carries queued time same rendered showing =>
        exact absurd queued (carries.not_mem empty _)
    | waiting visible faithful₂ carries queued pending => exact absurd queued (carries.not_mem empty _)

/-- A cached frame is what the first entry left in the queue shows. -/
theorem Faithful.acquire_hit {g : Geometry} {pts : Binary64} {f : HeldFrame} {t : Stream σ}
    (faithful : s.Faithful fresh since) (answer : s.acquire g pts = (.frame f, t)) (cached : f.isCached = true) :
    s.geometry.Same g ∧ ∃ b h p, t = { s with cache := b, current := some h } ∧
      Cache.Carries none s.cache b ∧ b.queue <:+ s.cache.queue ∧ b.queue.head? = some h ∧
      b.pts? h = some p ∧ p.Same pts ∧ b.isRendered h = true ∧ b.frame? h = some f.frame := by
  by_cases same : s.geometry.Same g
  · refine ⟨same, ?_⟩
    have adopted : s.adopt g = .ok s := by simp [Stream.adopt, same]
    have out := faithful.takenOut g same.isVoid_eq pts
    unfold Stream.acquire at answer
    rw [lookUp_eq faithful.threaded adopted pts] at answer
    generalize s.takeOut g pts = result at out answer
    cases out with
    | refused busy => exact absurd (congrArg Prod.fst answer) nofun
    | miss free faithful' carries apart suffix =>
        obtain ⟨-, -, onDemand⟩ := faithful'.renderOnDemand g pts apart
        rw [onDemand f (congrArg Prod.fst answer)] at cached
        exact absurd cached nofun
    | hit free faithful' carries queued time samePts rendered showing suffix front =>
        obtain ⟨given, rfl⟩ := Prod.mk.inj answer
        obtain rfl := Acquired.frame.inj given
        exact ⟨_, _, _, rfl, carries, suffix, front, time, samePts, rendered, showing⟩
    | waiting visible faithful' carries queued pending suffix => exact absurd (congrArg Prod.fst answer) nofun
  · rw [(faithful.acquire_other same pts).2.2 f (congrArg Prod.fst answer)] at cached
    exact absurd cached nofun

/-! ## Giving it back -/

/-- What is queued stays queued, and shows what it showed, whatever is given back. -/
theorem Faithful.release_cases {f : HeldFrame} {s' : Stream σ} (faithful : s.Faithful fresh since)
    (released : s.release f = .ok s') :
    (∃ cache lost, s' = { s with current := none, cache } ∧ cache.Consistent lost ∧
      cache.queue = s.cache.queue ∧ Cache.Carries none s.cache cache) ∨
    s' = { s with reserved := false } := by
  obtain ⟨h, b, -, out, given, became⟩ | ⟨-, -, became⟩ := Stream.release_cases released
  · obtain ⟨lost, con⟩ := faithful.cache
    rw [out] at con
    obtain ⟨b', done, conB, leaves, queue⟩ := Cache.Consistent.release (c := s.cache) (h := h) con
    obtain rfl := Except.ok.inj (done.symm.trans given)
    have carries : Cache.Carries none s.cache b' :=
      con.carries_of_leaves conB leaves fun k member => by rwa [queue] at member
    exact .inl ⟨b', lost, became, conB, queue, carries⟩
  · exact .inr became

theorem Faithful.release {f : HeldFrame} {s' : Stream σ} (faithful : s.Faithful fresh since)
    (released : s.release f = .ok s') : s'.Faithful fresh since := by
  obtain ⟨b, lost, rfl, con, -, carries⟩ | rfl := faithful.release_cases released
  · exact faithful.carry carries none ⟨lost, con⟩
  · exact ⟨faithful.threaded, faithful.served, faithful.log, faithful.cache, faithful.shown⟩

end Stream
end Subtitles
