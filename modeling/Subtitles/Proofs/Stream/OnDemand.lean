/-
# Proofs.Stream.OnDemand: frames rendered as they are asked for

A stream that has no worker renders on demand only, and so does one whose worker has no pixels to render
for. Between two acquires its backend decodes packets, and nothing else (`Decodes`); and the frame of an
acquire is what the backend answers (`acquire_onDemand`).
-/
import Subtitles.Proofs.Stream.Acquire
import Subtitles.Proofs.Stream.Reading
import Subtitles.Proofs.Uses
namespace Subtitles

set_option autoImplicit false

namespace Stream

variable {σ : Type} [Backend σ] {s t r : Stream σ} {g : Geometry} {pts : Binary64} {f : HeldFrame}

/-- From `s` to `t` the backend decoded packets, if it was used at all. -/
structure Decodes (s t : Stream σ) : Prop where
  threaded : t.threaded = s.threaded
  geometry : t.geometry = s.geometry
  state : ∃ ps : List Packet, t.backend.state = afterUses s.backend.state (ps.map .decode)

theorem Decodes.of_same (threaded : t.threaded = s.threaded) (geometry : t.geometry = s.geometry)
    (state : t.backend.state = s.backend.state) : Decodes s t :=
  ⟨threaded, geometry, [], state⟩

theorem Decodes.refl (s : Stream σ) : Decodes s s := .of_same rfl rfl rfl

theorem Decodes.trans (first : Decodes s r) (second : Decodes r t) : Decodes s t := by
  obtain ⟨ps, state⟩ := first.state
  obtain ⟨qs, state'⟩ := second.state
  refine ⟨second.threaded.trans first.threaded, second.geometry.trans first.geometry, qs ++ ps, ?_⟩
  rw [state', state, List.map_append, afterUses_append]

theorem decodes_deliver (p : Packet) (s : Stream σ) : Decodes s (s.deliver p) := by
  unfold deliver
  split
  · exact .of_same rfl rfl rfl
  · exact ⟨rfl, rfl, [p], rfl⟩

theorem decodes_readUntil (pts : Binary64) (s : Stream σ) : Decodes s (s.readUntil pts).2 := by
  fun_induction readUntil pts s with
  | case1 s done => exact .refl s
  | case2 s unread p source polled s' beyond =>
      have read : Decodes s { s with source, lastRead := p.pts } := .of_same rfl rfl rfl
      exact read.trans (decodes_deliver p _)
  | case3 s unread p source polled s' within ih =>
      have read : Decodes s { s with source, lastRead := p.pts } := .of_same rfl rfl rfl
      exact (read.trans (decodes_deliver p _)).trans ih
  | case4 s unread source polled => exact .of_same rfl rfl rfl
  | case5 s unread source polled => exact .of_same rfl rfl rfl
  | case6 s unread source polled => exact .of_same rfl rfl rfl

theorem decodes_prepare (pts : Binary64) (s : Stream σ) : Decodes s (s.prepare pts).2 := by
  refine (decodes_readUntil pts s).trans ?_
  show Decodes _ (if (s.readUntil pts).1 then _ else _)
  split
  · unfold request
    split <;> exact .of_same rfl rfl rfl
  · exact .refl _

theorem decodes_decodePending (s : Stream σ) : Decodes s s.decodePending := by
  refine ⟨rfl, rfl, s.pending.reverse, ?_⟩
  rw [decodePending, LoggedBackend.foldl_decode]
  exact afterUses_decodes ..

/-- A worker that is not there renders nothing, nor does one that has no pixels to render for. -/
theorem decodes_settle (idle : s.threaded = false ∨ s.geometry.isVoid = true) : Decodes s s.settle := by
  refine settle_induction (P := fun t => Decodes s t) (.refl s) fun t t' decodes round => ?_
  cases round with
  | decode => exact decodes.trans (decodes_decodePending t)
  | render running _ next =>
      rcases idle with alone | void
      · rw [← decodes.threaded, threaded, running] at alone
        cases alone
      · have visible := (nextJob_spec next).1
        rw [decodes.geometry, void] at visible
        cases visible

theorem renderOnDemand_frame (acquired : s.renderOnDemand g pts = (.frame f, t)) :
    f.pts = pts ∧ f.isCached = false ∧ (Backend.render g pts s.backend.state).1 = .ok f.frame ∧
      t = { s with backend := (s.backend.render .demand g pts).2, reserved := true } := by
  unfold renderOnDemand at acquired
  split at acquired
  · cases acquired
  · obtain ⟨frame, answer, rendered⟩ | ⟨fault, -, faulted⟩ := s.backend.render_cases .demand g pts
    · rw [rendered] at acquired
      obtain ⟨given, rfl⟩ := Prod.mk.inj acquired
      obtain rfl := Acquired.frame.inj given
      exact ⟨rfl, rfl, congrArg Prod.fst answer, by rw [rendered]⟩
    · rw [faulted] at acquired
      cases acquired

/-- With nothing to look up, the stream renders. A geometry is adopted before, at most. -/
theorem acquire_cases (idle : s.threaded = false ∨ g.isVoid = true) (pts : Binary64) :
    (∃ r : Stream σ, r.backend = s.backend ∧ r.threaded = s.threaded ∧
      (s.threaded = false ∨ r.geometry.isVoid = true) ∧ s.acquire g pts = r.renderOnDemand g pts) ∨
    ∃ fault t, s.acquire g pts = (.fault fault, t) := by
  unfold acquire
  cases threaded : s.threaded with
  | false =>
      rw [lookUp, threaded]
      exact .inl ⟨s, rfl, threaded, .inl rfl, rfl⟩
  | true =>
      have void : g.isVoid = true := idle.resolve_left (by simp [threaded])
      cases adopted : s.adopt g with
      | error fault =>
          rw [lookUp, threaded, adopted]
          exact .inr ⟨fault, s, rfl⟩
      | ok r =>
          rw [lookUp_eq threaded adopted, takeOut]
          by_cases busy : (r.current.isSome || r.reserved) = true
          · rw [if_pos busy]
            exact .inr ⟨_, r, rfl⟩
          · rw [if_neg busy, if_pos void]
            refine .inl ⟨r, ?_⟩
            obtain ⟨same, rfl⟩ | ⟨cache, -, rfl⟩ := adopt_cases adopted
            · exact ⟨rfl, threaded, .inr (same.isVoid_eq.trans void), rfl⟩
            · exact ⟨rfl, threaded, .inr void, rfl⟩

theorem acquire_onDemand_ne_stalled (idle : s.threaded = false ∨ g.isVoid = true) (pts : Binary64) :
    (s.acquire g pts).1 ≠ .stalled := by
  obtain ⟨r, -, -, -, rendered⟩ | ⟨fault, t, faulted⟩ := acquire_cases idle pts
  · rw [rendered]
    exact r.renderOnDemand_ne_stalled g pts
  · rw [faulted]
    exact nofun

theorem acquire_onDemand (idle : s.threaded = false ∨ g.isVoid = true) (acquired : s.acquire g pts = (.frame f, t)) :
    f.pts = pts ∧ (Backend.render g pts s.backend.state).1 = .ok f.frame ∧
      t.backend.state = (Backend.render g pts s.backend.state).2 ∧ t.threaded = s.threaded ∧
      (s.threaded = false ∨ t.geometry.isVoid = true) := by
  obtain ⟨r, backend, threaded, void, rendered⟩ | ⟨fault, r, faulted⟩ := acquire_cases idle pts
  swap
  · cases faulted.symm.trans acquired
  obtain ⟨time, -, drawn, rfl⟩ := renderOnDemand_frame (rendered.symm.trans acquired)
  rw [backend] at drawn
  refine ⟨time, drawn, ?_, threaded, void⟩
  show (r.backend.render .demand g pts).2.state = _
  rw [LoggedBackend.state_render, backend]

omit [Backend σ] in
theorem release_backend (released : s.release f = .ok t) :
    t.backend = s.backend ∧ t.threaded = s.threaded ∧ t.geometry = s.geometry := by
  obtain ⟨h, cache, -, -, -, rfl⟩ | ⟨-, -, rfl⟩ := release_cases released <;> exact ⟨rfl, rfl, rfl⟩

end Stream
end Subtitles
