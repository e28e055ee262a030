/-
# Proofs.Session.Workers: who ends a worker

No access ends the worker of a stream, and so no action does (`worker_turn`); only a fault in a round
of its own does. A worker that has ended stays as it is over every run (`worker_run`), so
one that is there in the end has been there all the time (`not_crashed_of_run`).
-/
import Subtitles.Proofs.Session.Access
import Subtitles.Proofs.Stream.Rounds
namespace Subtitles

set_option autoImplicit false

namespace Stream

variable {σ : Type} [Backend σ] {s : Stream σ}

omit [Backend σ] in
theorem threaded_congr {t : Stream σ} (same : t.worker = s.worker) : t.threaded = s.threaded := by
  rw [threaded, threaded, same]

omit [Backend σ] in
/-- Only the geometry and the cache are new. -/
theorem adopt_frame {t : Stream σ} {g : Geometry} (adopted : s.adopt g = .ok t) :
    t = { s with geometry := t.geometry, cache := t.cache } := by
  obtain ⟨-, rfl⟩ | ⟨cache, -, rfl⟩ := adopt_cases adopted
  · rfl
  · rfl

omit [Backend σ] in
/-- Looking again changes the cache and what is out at most. -/
theorem resume_frame (pts : Binary64) (h : Handle) (s : Stream σ) :
    ∃ cache current, (s.resume pts h).2 = { s with cache, current } := by
  unfold resume
  split
  · exact ⟨s.cache, s.current, rfl⟩
  · split
    · exact ⟨s.cache, s.current, rfl⟩
    · split
      · next released _ => exact ⟨released, none, rfl⟩
      · exact ⟨s.cache, none, rfl⟩

omit [Backend σ] in
/-- So does looking an entry up, which may change the geometry too. -/
theorem lookUp_frame (g : Geometry) (pts : Binary64) (s : Stream σ) :
    ∃ geometry cache current, (s.lookUp g pts).2 = { s with geometry, cache, current } := by
  unfold lookUp
  split
  · exact ⟨s.geometry, s.cache, s.current, rfl⟩
  · split
    · exact ⟨s.geometry, s.cache, s.current, rfl⟩
    · next t adopted =>
        have same := adopt_frame adopted
        split
        · exact ⟨t.geometry, t.cache, s.current, same⟩
        · split
          · exact ⟨t.geometry, t.cache, s.current, same⟩
          · split
            · exact ⟨t.geometry, t.cache, s.current, same⟩
            · next found _ => exact ⟨t.geometry, found, s.current, by rw [same]⟩
            · next h found _ =>
                obtain ⟨cache, current, resumed⟩ := resume_frame pts h { t with cache := found, current := some h }
                exact ⟨t.geometry, cache, current, by rw [resumed, same]⟩

omit [Backend σ] in
theorem worker_resume (pts : Binary64) (h : Handle) (s : Stream σ) : (s.resume pts h).2.worker = s.worker := by
  obtain ⟨cache, current, resumed⟩ := resume_frame pts h s
  rw [resumed]

omit [Backend σ] in
theorem worker_lookUp (g : Geometry) (pts : Binary64) (s : Stream σ) : (s.lookUp g pts).2.worker = s.worker := by
  obtain ⟨geometry, cache, current, looked⟩ := lookUp_frame g pts s
  rw [looked]

theorem demand_frame (g : Geometry) (pts : Binary64) (s : Stream σ) :
    ∃ reserved backend, (s.renderOnDemand g pts).2 = { s with reserved, backend } ∧
      (backend = s.backend ∨ backend = (s.backend.render .demand g pts).2) := by
  unfold renderOnDemand
  split
  · exact ⟨s.reserved, s.backend, rfl, .inl rfl⟩
  · cases s.backend.render .demand g pts with
    | mk frame backend => cases frame <;> exact ⟨true, backend, rfl, .inr rfl⟩

/-- An acquire renders once at most. -/
theorem acquire_frame (g : Geometry) (pts : Binary64) (s : Stream σ) :
    ∃ geometry cache current reserved backend,
      (s.acquire g pts).2 = { s with geometry, cache, current, reserved, backend } ∧
      (backend = s.backend ∨ backend = (s.backend.render .demand g pts).2) := by
  obtain ⟨geometry, cache, current, looked⟩ := lookUp_frame g pts s
  unfold acquire
  generalize s.lookUp g pts = result at looked
  obtain ⟨answer, r⟩ := result
  dsimp only at looked
  subst looked
  cases answer with
  | miss =>
      obtain ⟨reserved, backend, rendered, once⟩ := demand_frame g pts { s with geometry, cache, current }
      exact ⟨geometry, cache, current, reserved, backend, rendered, once⟩
  | _ => exact ⟨geometry, cache, current, s.reserved, s.backend, rfl, .inl rfl⟩

theorem worker_renderOnDemand (g : Geometry) (pts : Binary64) (s : Stream σ) :
    (s.renderOnDemand g pts).2.worker = s.worker := by
  obtain ⟨reserved, backend, rendered, -⟩ := demand_frame g pts s
  rw [rendered]

theorem worker_noteVideo (params : VideoFormat) (s : Stream σ) : (s.noteVideo params).worker = s.worker := by
  unfold noteVideo
  split <;> rfl

theorem worker_reset {t : Stream σ} (reset : s.reset = .ok t) : t.worker = s.worker := by
  obtain ⟨cache, -, rfl⟩ := Stream.reset_cases reset
  rfl

omit [Backend σ] in
theorem worker_release {f : HeldFrame} {t : Stream σ} (released : s.release f = .ok t) :
    t.worker = s.worker := by
  obtain ⟨h, cache, -, -, -, rfl⟩ | ⟨-, -, rfl⟩ := Stream.release_cases released
  · rfl
  · rfl

theorem worker_access {t : Stream σ} (access : s.Access t) : t.worker = s.worker := by
  cases access with
  | packets source lastRead drained ps => exact (undisturbed_enter ps _).worker
  | request pts => exact (undisturbed_request pts s).worker
  | text pts => exact (undisturbed_text pts s).worker
  | select on => rfl
  | control command => rfl
  | video params => exact worker_noteVideo params s
  | reset reset => exact worker_reset reset
  | resume pts out => exact worker_resume pts _ s
  | demand g pts => exact worker_renderOnDemand g pts s
  | release released => exact worker_release released

theorem worker_accesses {t : Stream σ} (accesses : s.Accesses t) : t.worker = s.worker := by
  induction accesses with
  | refl => rfl
  | tail _ access ih => exact (worker_access access).trans ih

end Stream

/-! ## Actions -/

namespace Session

variable {σ : Type} [Backend σ] {s : Session σ} {a : Action}

theorem worker_turn (alone : ∀ pts g, a ≠ .overtake pts g) : (s.turn a).worker = s.stream.worker := by
  cases a with
  | acquire g pts =>
      obtain ⟨geometry, cache, current, reserved, backend, acquired, -⟩ := Stream.acquire_frame g pts s.stream
      rw [turn, acquired]
  | _ => exact Stream.worker_accesses (s.accesses_turn alone fun _ _ same => by cases same)

/-- A worker that does not run never runs again. -/
theorem worker_step (stopped : s.stream.worker ≠ .running) (alone : ∀ pts g, a ≠ .overtake pts g) :
    (s.step a).2.stream.worker = s.stream.worker := by
  have same := worker_turn (s := s) alone
  unfold step
  split
  · rfl
  · show (s.perform a).2.stream.settle.worker = _
    rw [stream_perform, Stream.settle_of_not_running (by rw [same]; exact stopped), same]

theorem worker_run {actions : List Action} (stopped : s.stream.worker ≠ .running)
    (alone : ∀ pts g, .overtake pts g ∉ actions) : (s.run actions).2.stream.worker = s.stream.worker := by
  induction actions generalizing s with
  | nil => rfl
  | cons a rest ih =>
      have same := worker_step (a := a) stopped fun pts g same => alone pts g (same ▸ List.mem_cons_self)
      exact (ih (same ▸ stopped) fun pts g member => alone pts g (List.mem_cons_of_mem _ member)).trans same

/-- A session without a worker never gets one. -/
theorem threaded_of_run {actions : List Action} (alone : ∀ pts g, .overtake pts g ∉ actions)
    (threaded : (s.run actions).2.stream.threaded = true) : s.stream.threaded = true := by
  cases without : s.stream.threaded with
  | true => rfl
  | false =>
      have absent : s.stream.worker = .absent := by simpa [Stream.threaded] using without
      have stopped : s.stream.worker ≠ .running := by
        rw [absent]
        intro running
        cases running
      rw [Stream.threaded_congr (worker_run stopped alone), without] at threaded
      cases threaded

/-- A worker that is there in the end was there all the time. -/
theorem not_crashed_of_run {actions : List Action} (alone : ∀ pts g, .overtake pts g ∉ actions)
    (survives : ∀ f, (s.run actions).2.stream.worker ≠ .crashed f) (f : Fault) : s.stream.worker ≠ .crashed f := by
  intro crashed
  exact survives f ((worker_run (by rw [crashed]; exact nofun) alone).trans crashed)

end Session
end Subtitles
