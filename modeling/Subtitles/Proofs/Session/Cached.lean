/-
# Proofs.Session.Cached: where cached frames come from

A session renews what it renders ahead when it is reset and when an acquire changes the geometry.
Every action leaves its stream faithful, since the renewal if it is one (`step_faithful`), and so
does every run (`run_faithful`). A cached frame therefore shows what the worker got for its time
and geometry after the latest renewal (`cached_frames_rendered_ahead`).
-/
import Subtitles.Proofs.Session.Turn
import Subtitles.Proofs.Stream.Acquire
import Subtitles.Proofs.TallyBackend
namespace Subtitles

set_option autoImplicit false

open LoggedBackend (Served SoundChanges)

/-- The cached frame of an answer. -/
def Answer.cached? : Answer → Option HeldFrame
  | .frame f => if f.isCached then some f else none
  | _ => none

theorem Answer.eq_of_cached? {a : Answer} {f : HeldFrame} (cached : a.cached? = some f) :
    a = .frame f ∧ f.isCached = true := by
  cases a with
  | frame k =>
      rw [cached?] at cached
      split at cached
      · next isCached =>
          obtain rfl := Option.some.inj cached
          exact ⟨rfl, isCached⟩
      · cases cached
  | _ => cases cached

namespace Session

variable {σ : Type} [Backend σ] {fresh : σ} {since : List Call} {s : Session σ}

/-- The action makes worthless what was rendered ahead. A reset does not while a frame rendered on
demand is out, since it is refused. -/
def Renews (s : Session σ) : Action → Prop
  | .reset => s.holdsBackend = false
  | .acquire g _ => ¬ s.stream.geometry.Same g
  | _ => False

/-- An action leaves the stream faithful, and the worker is not yet asked. -/
theorem turn_faithful (faithful : s.stream.Faithful fresh since) {a : Action}
    (alone : ∀ pts g, a ≠ .overtake pts g) :
    ∃ since', (s.turn a).Faithful fresh since' ∧ since <:+ since' ∧
      (s.Renews a → since' = (s.turn a).backend.calls) := by
  have keep : (s.turn a).Faithful fresh since → ¬ s.Renews a →
      ∃ since', (s.turn a).Faithful fresh since' ∧ since <:+ since' ∧
        (s.Renews a → since' = (s.turn a).backend.calls) := by
    intro kept same
    exact ⟨since, kept, List.suffix_refl _, fun renews => absurd renews same⟩
  cases a with
  | offer p => exact keep (faithful.offer p) id
  | request pts => exact keep (faithful.request pts) id
  | prepare pts => exact keep (faithful.prepare pts) id
  | drain =>
      refine keep ?_ id
      rw [turn]
      split
      · exact faithful
      · exact faithful.drain
  | text pts => exact keep (faithful.text pts) id
  | control command => exact keep (faithful.control command) id
  | select on => exact keep (faithful.select on) id
  | video params => exact keep (faithful.noteVideo params) id
  | reset =>
      obtain ⟨t, reset, faithful', grown⟩ := faithful.reset
      have became : s.turn .reset = t := by rw [turn, reset]; rfl
      rw [became]
      exact ⟨t.backend.calls, faithful', faithful.log.trans grown, fun _ => rfl⟩
  | acquire g pts =>
      by_cases same : s.stream.geometry.Same g
      · exact keep (faithful.acquire_same same pts).1 fun renews => renews same
      · obtain ⟨faithful', grown, -⟩ := faithful.acquire_other same pts
        exact ⟨_, faithful', faithful.log.trans grown, fun _ => rfl⟩
  | release =>
      refine keep ?_ id
      obtain kept | ⟨f, -, released⟩ := s.turn_release_cases
      · rw [kept]
        exact faithful
      · exact faithful.release released
  | send p =>
      refine keep ?_ id
      obtain kept | ⟨source, -, became⟩ := s.turn_send_cases p
      · rw [kept]
        exact faithful
      · rw [became]
        exact faithful.of_same rfl rfl rfl rfl rfl
  | close => exact keep (faithful.of_same rfl rfl rfl rfl rfl) id
  | overtake pts g => exact absurd rfl (alone pts g)

/-- An action, and the worker's turn after it. -/
theorem step_faithful (faithful : s.stream.Faithful fresh since) (sound : SoundChanges fresh)
    {a : Action} (alone : ∀ pts g, a ≠ .overtake pts g) :
    ∃ since', (s.step a).2.stream.Faithful fresh since' ∧ since <:+ since' ∧
      (s.Renews a → (s.perform a).2.stream.backend.calls <:+ since') := by
  unfold step
  cases waits : s.holdsBackend && a.needsBackend with
  | true =>
      refine ⟨since, faithful, List.suffix_refl _, ?_⟩
      intro renews
      obtain ⟨holds, needs⟩ := (Bool.and_eq_true _ _).mp waits
      cases a with
      | reset => exact absurd (holds.symm.trans renews) nofun
      | acquire g pts => exact absurd needs nofun
      | _ => exact renews.elim
  | false =>
      obtain ⟨since', faithful', later, renewed⟩ := turn_faithful faithful alone
      rw [← stream_perform] at faithful' renewed
      refine ⟨since', faithful'.settle sound, later, ?_⟩
      intro renews
      exact renewed renews ▸ List.suffix_refl _

/-- A run leaves the stream faithful since every renewal in it. -/
theorem run_faithful (faithful : s.stream.Faithful fresh since) (sound : SoundChanges fresh)
    (actions : List Action) (alone : ∀ pts g, .overtake pts g ∉ actions) :
    ∃ since', (s.run actions).2.stream.Faithful fresh since' ∧ since <:+ since' ∧
      ∀ earlier a later, actions = earlier ++ a :: later → (s.run earlier).2.Renews a →
        ((s.run earlier).2.perform a).2.stream.backend.calls <:+ since' := by
  induction actions generalizing s since with
  | nil =>
      refine ⟨since, faithful, List.suffix_refl _, ?_⟩
      intro earlier a later parts
      exact absurd parts.symm (by simp)
  | cons a rest ih =>
      obtain ⟨since₁, faithful₁, later₁, renewed⟩ :=
        step_faithful faithful sound (a := a) fun pts g same => alone pts g (same ▸ List.mem_cons_self)
      obtain ⟨since', faithful', later', renewals⟩ :=
        ih faithful₁ fun pts g member => alone pts g (List.mem_cons_of_mem _ member)
      refine ⟨since', faithful', later₁.trans later', ?_⟩
      intro earlier b later parts renews
      cases earlier with
      | nil =>
          obtain ⟨rfl, rfl⟩ := List.cons.inj parts
          exact (renewed renews).trans later'
      | cons first earlier =>
          obtain ⟨rfl, parts'⟩ := List.cons.inj parts
          exact renewals earlier b later parts' renews

/-- A session opened on a backend. -/
def opened (codec : Codec) (source : Source) (options : Options) (fresh : σ) : Session σ :=
  { stream := .ofBackend codec source options fresh }

theorem opened_faithful {codec : Codec} {source : Source} {options : Options}
    (threaded : (Stream.ofBackend codec source options fresh).threaded = true) :
    (opened codec source options fresh).stream.Faithful fresh [] :=
  .of_queue_nil threaded .start List.nil_suffix ⟨[], .ofCapacity _⟩ rfl

/-- A cached frame shows what the worker got for its time and geometry, since every renewal of the run. -/
theorem run_cached (faithful : s.stream.Faithful fresh since) (sound : SoundChanges fresh) {actions : List Action}
    (alone : ∀ pts g, .overtake pts g ∉ actions) {g : Geometry} {pts : Binary64} {f : HeldFrame}
    (answer : ((s.run actions).2.step (.acquire g pts)).1 = .frame f) (cached : f.isCached = true) :
    ∃ newer p g' got older,
      (s.run actions).2.stream.backend.calls = newer ++ .render .ahead p g' got :: older ∧
      p.Same pts ∧ g'.Same g ∧ got.SameContent f.frame ∧
      ∀ earlier a later, actions ++ [.acquire g pts] = earlier ++ a :: later → (s.run earlier).2.Renews a →
        ((s.run earlier).2.perform a).2.stream.backend.calls <:+ older := by
  obtain ⟨since', faithful', -, renewals⟩ := run_faithful faithful sound actions alone
  generalize ends : (s.run actions).2 = t at *
  obtain ⟨r, handed, -⟩ := step_acquire (Prod.ext answer rfl)
  have acquired : (t.stream.acquire g pts).1 = .frame f := congrArg Prod.fst handed
  by_cases same : t.stream.geometry.Same g
  · obtain ⟨p, got, samePts, content, newer, older, calls, after⟩ :=
      (faithful'.acquire_same same pts).2 f acquired cached
    refine ⟨newer, p, _, got, older, calls, samePts, same, content, ?_⟩
    intro earlier a later parts renews
    obtain rfl | ⟨later', last, rfl⟩ := List.eq_nil_or_concat later
    · obtain ⟨rfl, whole⟩ := List.append_inj' parts rfl
      obtain rfl := (List.cons.inj whole).1
      exact absurd same (ends ▸ renews)
    · rw [List.concat_eq_append, ← List.cons_append, ← List.append_assoc] at parts
      exact (renewals earlier a later' (List.append_inj' parts rfl).1 renews).trans after
  · rw [(faithful'.acquire_other same pts).2.2 f acquired] at cached
    cases cached

end Session

/-- A cached frame shows what the worker got when it had the same time rendered at the same
geometry, after every reset and every change of the geometry up to now. -/
theorem cached_frames_rendered_ahead {σ : Type} [Backend σ] {fresh : σ} (sound : SoundChanges fresh)
    {codec : Codec} {source : Source} {options : Options}
    (threaded : (Stream.ofBackend codec source options fresh).threaded = true) {actions : List Action}
    (alone : ∀ pts g, .overtake pts g ∉ actions) {g : Geometry} {pts : Binary64} {f : HeldFrame}
    (answer : (((Session.opened codec source options fresh).run actions).2.step (.acquire g pts)).1 = .frame f)
    (cached : f.isCached = true) :
    ∃ newer p g' got older,
      ((Session.opened codec source options fresh).run actions).2.stream.backend.calls =
        newer ++ .render .ahead p g' got :: older ∧
      p.Same pts ∧ g'.Same g ∧ got.SameContent f.frame ∧
      ∀ earlier a later, actions ++ [.acquire g pts] = earlier ++ a :: later →
        ((Session.opened codec source options fresh).run earlier).2.Renews a →
        (((Session.opened codec source options fresh).run earlier).2.perform a).2.stream.backend.calls <:+ older :=
  Session.run_cached (Session.opened_faithful threaded) sound alone answer cached

/-- One packet, counted by a backend, and a worker for it. -/
def tallySession : Session TallyBackend :=
  .opened ⟨"mock", #[]⟩ (.ofPackets [⟨some .one, none, #[]⟩]) { renderAhead := 2 } {}

/-- A frame on demand tells the geometry. After a reset two times are rendered ahead, and the
second shares what the first one shows. -/
def tallyActions : List Action :=
  [.acquire ⟨8, 4, {}, .one⟩ .one, .release, .reset, .prepare .zero, .request .one]

/-- The second frame, with the change number of the first. -/
def tallyFrame : HeldFrame := ⟨.one, ⟨.alpha8, [TallyBackend.dot 1], 2⟩, .cached ⟨1, 0⟩⟩

theorem cached_frames_rendered_ahead_tally :
    LoggedBackend.SoundChanges ({} : TallyBackend) ∧
      ((tallySession.run tallyActions).2.step (.acquire ⟨8, 4, {}, .one⟩ .one)).1 = .frame tallyFrame ∧
      ∃ newer p g' got older,
        (tallySession.run tallyActions).2.stream.backend.calls = newer ++ .render .ahead p g' got :: older ∧
        p.Same .one ∧ g'.Same ⟨8, 4, {}, .one⟩ ∧ got.SameContent tallyFrame.frame ∧
        ∀ earlier a later, tallyActions ++ [.acquire ⟨8, 4, {}, .one⟩ .one] = earlier ++ a :: later →
          (tallySession.run earlier).2.Renews a →
          ((tallySession.run earlier).2.perform a).2.stream.backend.calls <:+ older := by
  have sound : LoggedBackend.SoundChanges ({} : TallyBackend) := TallyBackend.soundChanges rfl
  have answer : ((tallySession.run tallyActions).2.step (.acquire ⟨8, 4, {}, .one⟩ .one)).1 = .frame tallyFrame := by
    decide +kernel
  exact ⟨sound, answer, cached_frames_rendered_ahead sound rfl (by simp [tallyActions]) answer rfl⟩

end Subtitles
