/-
# Proofs.Stream.Silent: what renders nothing

Most of what a caller does to a stream with a worker renders nothing: the log grows by other calls
at most, and what is rendered of the queue stays as it is (`Silent`). There is one lemma for each
such operation. The others are an acquire, a reset, and the worker's own renders.
-/
import Subtitles.Proofs.Cache.Progress
import Subtitles.Proofs.Stream.Acquire
import Subtitles.Proofs.Stream.Reading
namespace Subtitles

set_option autoImplicit false

namespace Cache

variable {c b d : Cache} {held : List Handle}

/-- What is rendered of the queue stays queued as it is, and nothing more of it is rendered. -/
def KeepsDone (c b : Cache) : Prop :=
  ∀ done waiting, c.RenderedUpTo done waiting → ∃ waiting', b.RenderedUpTo done waiting' ∧
    ∀ h ∈ done, b.pts? h = c.pts? h ∧ b.frame? h = c.frame? h

theorem KeepsDone.refl (c : Cache) : c.KeepsDone c := fun _ waiting upTo =>
  ⟨waiting, upTo, fun _ _ => ⟨rfl, rfl⟩⟩

theorem KeepsDone.trans (first : c.KeepsDone b) (second : b.KeepsDone d) : c.KeepsDone d := by
  intro done waiting upTo
  obtain ⟨waiting₁, upTo₁, same₁⟩ := first done waiting upTo
  obtain ⟨waiting₂, upTo₂, same₂⟩ := second done waiting₁ upTo₁
  refine ⟨waiting₂, upTo₂, ?_⟩
  intro h member
  exact ⟨(same₂ h member).1.trans (same₁ h member).1, (same₂ h member).2.trans (same₁ h member).2⟩

theorem Carries.keepsDone (carries : Carries none c b) (queue : b.queue = c.queue) : c.KeepsDone b := by
  intro done waiting upTo
  refine ⟨waiting, upTo.of_same_queue carries queue nofun, ?_⟩
  intro h member
  have queued : h ∈ b.queue := by
    rw [queue, upTo.queue]
    exact List.mem_append_left _ member
  exact ⟨carries.pts h queued, carries.frame h queued nofun⟩

theorem Consistent.keepsDone_request (con : c.Consistent held) (pts : Binary64) :
    c.KeepsDone (c.request pts).2 := by
  intro done waiting upTo
  obtain ⟨new, upTo', -⟩ := upTo.request con pts
  refine ⟨waiting ++ new, upTo', ?_⟩
  intro h member
  have queued : h ∈ (c.request pts).2.queue := upTo'.queue ▸ List.mem_append_left _ member
  exact (con.of_rendered_request pts queued (upTo'.done h member)).2

end Cache

namespace Stream

variable {σ : Type} {s t u : Stream σ}

/-- From `s` to `t` nothing was rendered. -/
structure Silent (s t : Stream σ) : Prop where
  geometry : t.geometry = s.geometry
  latest : t.backend.latest = s.backend.latest
  log : ∃ new, t.backend.calls = new ++ s.backend.calls ∧ ∀ c ∈ new, c.frame? = none
  cache : s.cache.KeepsDone t.cache

theorem Silent.of_same (geometry : t.geometry = s.geometry) (backend : t.backend = s.backend)
    (cache : t.cache = s.cache) : Silent s t where
  geometry := geometry
  latest := congrArg LoggedBackend.latest backend
  log := ⟨[], congrArg LoggedBackend.calls backend, nofun⟩
  cache := cache ▸ .refl _

theorem Silent.refl (s : Stream σ) : Silent s s := .of_same rfl rfl rfl

theorem Silent.trans (first : Silent s t) (second : Silent t u) : Silent s u := by
  obtain ⟨new₁, log₁, silent₁⟩ := first.log
  obtain ⟨new₂, log₂, silent₂⟩ := second.log
  refine ⟨second.geometry.trans first.geometry, second.latest.trans first.latest,
    ⟨new₂ ++ new₁, ?_, ?_⟩, first.cache.trans second.cache⟩
  · rw [log₂, log₁, List.append_assoc]
  · intro c member
    rcases List.mem_append.1 member with later | earlier
    · exact silent₂ c later
    · exact silent₁ c earlier

theorem Silent.calls (silent : Silent s t) : s.backend.calls <:+ t.backend.calls := by
  obtain ⟨new, log, -⟩ := silent.log
  exact ⟨new, log.symm⟩

theorem Silent.demands (silent : Silent s t) : demands t.backend.calls = demands s.backend.calls := by
  obtain ⟨new, log, none⟩ := silent.log
  rw [log, demands_append, demands_eq_zero none, Nat.zero_add]

/-- Another cache. -/
theorem Silent.of_cache {b : Cache} (keeps : s.cache.KeepsDone b) (current : Option Handle) :
    Silent s { s with cache := b, current } :=
  ⟨rfl, rfl, ⟨[], rfl, nofun⟩, keeps⟩

/-- A call that renders nothing. -/
theorem Silent.of_call {b : LoggedBackend σ} {c : Call} (logged : b.calls = c :: s.backend.calls)
    (none : c.frame? = none) (latest : b.latest = s.backend.latest) : Silent s { s with backend := b } := by
  refine ⟨rfl, latest, ⟨[c], logged, ?_⟩, .refl _⟩
  intro d member
  exact List.mem_singleton.1 member ▸ none

/-! ## Packets -/

variable [Backend σ] {fresh : σ} {since : List Call}

/-- What is taken in waits for the worker. -/
theorem enter_of_threaded (threaded : s.threaded = true) (ps : List Packet) :
    s.enter ps = { s with pending := s.pending ++ ps } :=
  if_pos threaded

theorem deliver_of_threaded (threaded : s.threaded = true) (p : Packet) :
    s.deliver p = { s with pending := s.pending ++ [p] } :=
  if_pos threaded

theorem silent_offer (threaded : s.threaded = true) (p : Packet) : Silent s (s.offer p) := by
  unfold offer
  split
  · exact .refl s
  · rw [deliver_of_threaded threaded]
    exact .of_same rfl rfl rfl

theorem silent_readUntil (threaded : s.threaded = true) (pts : Binary64) : Silent s (s.readUntil pts).2 := by
  fun_induction readUntil pts s with
  | case1 s done => exact .refl s
  | case2 s unread p source polled s' beyond =>
      have delivered : s' = { s with source, lastRead := p.pts, pending := s.pending ++ [p] } := if_pos threaded
      rw [delivered]
      exact .of_same rfl rfl rfl
  | case3 s unread p source polled s' within ih =>
      have delivered : s' = { s with source, lastRead := p.pts, pending := s.pending ++ [p] } := if_pos threaded
      have read : Silent s' (s'.readUntil pts).2 := ih (delivered ▸ threaded)
      refine Silent.trans ?_ read
      rw [delivered]
      exact .of_same rfl rfl rfl
  | case4 s unread source polled => exact .of_same rfl rfl rfl
  | case5 s unread source polled => exact .of_same rfl rfl rfl
  | case6 s unread source polled => exact .of_same rfl rfl rfl

theorem silent_drain (threaded : s.threaded = true) : Silent s s.drain.2 := by
  unfold drain
  split
  · exact .refl s
  · split
    · exact .refl s
    · have still : Stream.threaded { s with source := s.source.pastEnd } = true := threaded
      simp only [foldl_deliver]
      rw [enter_of_threaded still]
      exact .of_same rfl rfl rfl

/-! ## What else a caller does -/

theorem silent_request (faithful : s.Faithful fresh since) (pts : Binary64) : Silent s (s.request pts) := by
  obtain ⟨lost, con⟩ := faithful.cache
  unfold request
  split
  · exact .of_cache (con.keepsDone_request pts) s.current
  · exact .refl s

theorem silent_prepare (faithful : s.Faithful fresh since) (pts : Binary64) : Silent s (s.prepare pts).2 := by
  have read := silent_readUntil faithful.threaded pts
  show Silent s (if (s.readUntil pts).1 then (s.readUntil pts).2.request pts else (s.readUntil pts).2)
  split
  · exact read.trans (silent_request (faithful.readUntil pts) pts)
  · exact read

theorem silent_text (pts : Binary64) (s : Stream σ) : Silent s (s.text pts).2 := by
  unfold text
  split
  · exact .of_call rfl rfl rfl
  · exact .refl s

theorem silent_control (command : Command) (s : Stream σ) : Silent s (s.control command).2 :=
  .of_call rfl rfl rfl

theorem silent_noteVideo (params : VideoFormat) (s : Stream σ) : Silent s (s.noteVideo params) := by
  unfold noteVideo
  split
  · exact .refl s
  · have noted : Silent s { s with lastVideo := some params } := .of_same rfl rfl rfl
    exact noted.trans (silent_control (.video params) _)

theorem silent_release (faithful : s.Faithful fresh since) {f : HeldFrame} (released : s.release f = .ok t) :
    Silent s t := by
  obtain ⟨b, lost, rfl, -, queue, carries⟩ | rfl := faithful.release_cases released
  · exact .of_cache (carries.keepsDone queue) none
  · exact .of_same rfl rfl rfl

end Stream
end Subtitles
