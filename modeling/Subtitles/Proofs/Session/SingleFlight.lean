/-
# Proofs.Session.SingleFlight: one frame is out at a time

Two sides note what is out: the caller has a frame, and the stream has that frame's entry as its
`current` one or is `reserved`. Between two actions both say the same, and the worker waits
(`AtRest`). Every action leaves it so (`AtRest.step`), and every run (`AtRest.run`), unless a render
faults: one of an acquire, or one of the worker, which nothing else ends (`endures_opened_iff`).
Hence an acquire is refused exactly while a frame is out, whatever is out can be given back, and
then the stream ends with nothing live (`single_flight`).

A render on demand that faults leaves the reservation behind, and no frame that could be given back
(`reservation_outlives_fault`). From there no run comes to an acquire that is granted (`Stuck.run`).
-/
import Subtitles.Proofs.Cache.Bounds
import Subtitles.Proofs.Session.Cached
import Subtitles.Proofs.Session.Enduring
import Subtitles.TextBackend
namespace Subtitles

set_option autoImplicit false

/-- The entry that a frame keeps. -/
def HeldFrame.entry? (f : HeldFrame) : Option Handle :=
  match f.hold with
  | .cached h => some h
  | .reserved => none

variable {σ : Type} [Backend σ]

namespace Session

variable {s : Session σ} {a : Action}

/-- A render on demand would give a frame. -/
def Renders (s : Session σ) (g : Geometry) (pts : Binary64) : Prop :=
  ∃ frame, (Backend.render g pts s.stream.backend.state).1 = .ok frame

instance decidableRenders (s : Session σ) (g : Geometry) (pts : Binary64) : Decidable (s.Renders g pts) :=
  match answer : (Backend.render g pts s.stream.backend.state).1 with
  | .ok frame => .isTrue ⟨frame, answer⟩
  | .error _ => .isFalse fun ⟨_, same⟩ => absurd (answer.symm.trans same) nofun

/-- Both sides agree on what is out. -/
structure Matched (start : Stream σ) (s : Session σ) : Prop where
  reached : Underway.Reached start ⟨s.stream, none⟩
  current : s.stream.current = s.held.bind HeldFrame.entry?
  reserved : s.stream.reserved = s.holdsBackend
  shown : s.stream.Shown
  single : s.stream.threaded = false → s.stream.current = none

/-- Besides, the worker has nothing to do. -/
structure AtRest (start : Stream σ) (s : Session σ) : Prop extends Matched start s where
  idle : s.stream.threaded = true → s.stream.Idle

/-! ## One action -/

variable {fresh : σ} {codec : Codec} {source : Source} {options : Options}

namespace Matched

theorem turn (matched : s.Matched (.ofBackend codec source options fresh)) (alone : ∀ pts g, a ≠ .overtake pts g)
    (keeps : ∀ g pts, a ≠ .acquire g pts) (stays : a ≠ .release) :
    Matched (.ofBackend codec source options fresh) { s with stream := s.turn a } := by
  have same := s.undisturbed_turn alone keeps stays
  have accesses := s.accesses_turn alone keeps
  refine ⟨matched.reached.accesses accesses, same.current.trans matched.current,
    same.reserved.trans matched.reserved, matched.reached.sound.shown_accesses matched.shown accesses, ?_⟩
  intro single
  exact same.current.trans (matched.single ((Stream.threaded_congr same.worker).symm.trans single))

/-- The worker's turn ends at rest, while it may use the backend and no render faults. -/
theorem settle (matched : s.Matched (.ofBackend codec source options fresh)) (free : s.holdsBackend = false)
    (survives : ∀ f, s.stream.settle.worker ≠ .crashed f) :
    AtRest (.ofBackend codec source options fresh) { s with stream := s.stream.settle } := by
  have sound := matched.reached.sound
  obtain works | ⟨f, -, -, crashed, -⟩ := Underway.works_settle sound (matched.reserved.trans free)
  · obtain ⟨worker, current, reserved⟩ := Underway.frame_works works sound
    refine ⟨⟨matched.reached.works works, current.trans matched.current, reserved.trans matched.reserved,
      sound.shown_works matched.shown works, ?_⟩, ?_⟩
    · intro single
      exact current.trans (matched.single ((Stream.threaded_congr worker).symm.trans single))
    · intro threaded
      refine Stream.settle_idle sound.consistent ?_
      cases goesOn : s.stream.settle.worker with
      | running => rfl
      | absent => simp [Stream.threaded, goesOn] at threaded
      | crashed f => exact absurd goesOn (survives f)
  · exact absurd crashed (survives f)

theorem held_eq_none {start : Stream σ} (matched : s.Matched start) (noFrame : s.stream.current = none)
    (free : s.stream.reserved = false) : s.held = none := by
  have current := matched.current.symm.trans noFrame
  have reserved := matched.reserved.symm.trans free
  match out : s.held with
  | none => rfl
  | some ⟨_, _, .cached h⟩ =>
      rw [out] at current
      cases current
  | some ⟨_, _, .reserved⟩ =>
      rw [holdsBackend, out] at reserved
      cases reserved

theorem isSome_held {start : Stream σ} (matched : s.Matched start)
    (busy : (s.stream.current.isSome || s.stream.reserved) = true) : s.held.isSome = true := by
  rw [matched.current, matched.reserved, holdsBackend] at busy
  cases out : s.held with
  | some f => rfl
  | none =>
      rw [out] at busy
      cases busy

end Matched

/-- What an acquire comes to, and the stream after it. -/
inductive Acquires (s : Session σ) : Acquired × Stream σ → Prop
  | refused {misuse : CheckoutMisuse} {t : Stream σ} (out : s.held.isSome = true)
      (current : t.current = s.stream.current) (reserved : t.reserved = s.stream.reserved) (shown : t.Shown)
      (idle : s.stream.threaded = true → t.Idle) : Acquires s (.fault (.checkout misuse), t)
  | granted {f : HeldFrame} {t : Stream σ} (nothingOut : s.held = none) (current : t.current = f.entry?)
      (reserved : t.reserved = !f.isCached) (shown : t.Shown)
      (single : s.stream.threaded = false → t.current = none)
      (idle : s.stream.threaded = true → t.Idle) : Acquires s (.frame f, t)

/-- Where nothing is found, a frame is rendered by a backend that nobody has used since. -/
theorem Acquires.demand {t : Stream σ} {g : Geometry} {pts : Binary64} (nothingOut : s.held = none)
    (renders : s.Renders g pts) (noFrame : t.current = none) (free : t.reserved = false)
    (backend : t.backend = s.stream.backend) (idle : s.stream.threaded = true → t.Idle) :
    s.Acquires (t.renderOnDemand g pts) := by
  obtain ⟨frame, answer⟩ := renders
  rw [Stream.renderOnDemand_eq free (backend ▸ answer)]
  refine .granted nothingOut noFrame rfl (Stream.shown_of_none noFrame) (fun _ => noFrame) ?_
  intro threaded
  exact ⟨(idle threaded).decoded, (idle threaded).rendered⟩

namespace AtRest

theorem settled {start : Stream σ} (rest : s.AtRest start) : s.stream.settle = s.stream := by
  cases threaded : s.stream.threaded with
  | true => exact Stream.settle_of_idle (rest.idle threaded)
  | false =>
      refine Stream.settle_of_not_running fun running => ?_
      simp [Stream.threaded, running] at threaded

/-- The worker gets its turn, and leaves everything as it is. -/
theorem still {start : Stream σ} (rest : s.AtRest start) : AtRest start ⟨s.stream.settle, s.held⟩ := by
  rwa [rest.settled]

theorem acquires (rest : s.AtRest (.ofBackend codec source options fresh)) {g : Geometry} {pts : Binary64}
    (renders : s.held = none → s.Renders g pts) : s.Acquires (s.stream.acquire g pts) := by
  have looked : Underway.Looked s.stream pts (s.stream.lookUp g pts) :=
    rest.reached.sound.looked rest.idle g pts
  unfold Stream.acquire
  generalize s.stream.lookUp g pts = result at looked
  cases looked with
  | refused busy shown current reserved idle =>
      exact .refused (rest.isSome_held busy) current reserved (shown rest.shown) fun _ => idle
  | alone single =>
      have noFrame := rest.single single
      cases reserved : s.stream.reserved with
      | true =>
          have refused : s.stream.renderOnDemand g pts = (.fault (.checkout .alreadyReserved), s.stream) := by
            rw [Stream.renderOnDemand, if_pos reserved]
          show s.Acquires (s.stream.renderOnDemand g pts)
          rw [refused]
          exact .refused (rest.isSome_held (by simp [reserved])) rfl rfl rest.shown rest.idle
      | false =>
          have nothingOut := rest.held_eq_none noFrame reserved
          exact .demand nothingOut (renders nothingOut) noFrame reserved rfl rest.idle
  | miss noFrame free current reserved backend idle =>
      have nothingOut := rest.held_eq_none noFrame free
      exact .demand nothingOut (renders nothingOut) current reserved backend fun _ => idle
  | hit threaded noFrame free current reserved rendered idle =>
      refine .granted (rest.held_eq_none noFrame free) current reserved ?_ ?_ fun _ => idle
      · intro h out
        rwa [← Option.some.inj (current.symm.trans out)]
      · intro single
        cases threaded.symm.trans single

/-- An acquire is refused exactly while a frame is out, and leaves the worker nothing to do. -/
theorem acquire (rest : s.AtRest (.ofBackend codec source options fresh)) (g : Geometry) (pts : Binary64)
    (renders : s.held = none → s.Renders g pts) :
    (s.acquire g pts).2.AtRest (.ofBackend codec source options fresh) ∧
      ((s.held.isSome = true ∧ (s.acquire g pts).2.held = s.held ∧
          ∃ misuse, (s.acquire g pts).1 = .fault (.checkout misuse)) ∨
        s.held = none ∧ ∃ f, (s.acquire g pts).1 = .frame f ∧ (s.acquire g pts).2.held = some f) := by
  have acquires := rest.acquires renders
  have reached := (rest.reached.lookUp g pts).accesses (Stream.accesses_acquire g pts s.stream)
  have worker : (s.stream.acquire g pts).2.worker = s.stream.worker :=
    worker_turn (s := s) (a := .acquire g pts) nofun
  unfold Session.acquire
  generalize s.stream.acquire g pts = result at acquires reached worker
  have threaded := Stream.threaded_congr worker
  cases acquires with
  | @refused misuse t out current reserved shown idle =>
      refine ⟨⟨⟨reached, current.trans rest.current, reserved.trans rest.reserved, shown, ?_⟩, ?_⟩,
        .inl ⟨out, rfl, misuse, rfl⟩⟩
      · exact fun single => current.trans (rest.single (threaded.symm.trans single))
      · exact fun isThreaded => idle (threaded.symm.trans isThreaded)
  | @granted f t nothingOut current reserved shown single idle =>
      refine ⟨⟨⟨reached, current, reserved, shown, ?_⟩, ?_⟩, .inr ⟨nothingOut, f, rfl, rfl⟩⟩
      · exact fun isSingle => single (threaded.symm.trans isSingle)
      · exact fun isThreaded => idle (threaded.symm.trans isThreaded)

/-- Whatever is out can be given back. -/
theorem release (rest : s.AtRest (.ofBackend codec source options fresh)) {f : HeldFrame} (out : s.held = some f) :
    ∃ t, s.stream.release f = .ok t ∧ AtRest (.ofBackend codec source options fresh) ⟨t, none⟩ ∧
      t.backend = s.stream.backend := by
  have current := rest.current
  have reserved := rest.reserved
  rw [holdsBackend, out] at reserved
  rw [out] at current
  obtain ⟨pts, frame, cached | -⟩ := f
  · obtain ⟨b, released, -, carries⟩ := rest.reached.sound.given current
    have current : s.stream.current = some cached := current
    have given : s.stream.release ⟨pts, frame, .cached cached⟩ = .ok { s.stream with cache := b, current := none } := by
      simp only [Stream.release, current, if_true]
      exact congrArg (Except.map _) released
    refine ⟨_, given, ⟨⟨rest.reached.access (.release given), rfl, reserved, Stream.shown_of_none rfl, fun _ => rfl⟩, ?_⟩, rfl⟩
    exact fun threaded => (rest.idle threaded).carry carries rfl rfl
  · have taken : s.stream.reserved = true := reserved
    have given : s.stream.release ⟨pts, frame, .reserved⟩ = .ok { s.stream with reserved := false } := by
      simp only [Stream.release, taken, if_true]
    refine ⟨_, given, ⟨⟨rest.reached.access (.release given), current, rfl, rest.shown, rest.single⟩, ?_⟩, rfl⟩
    exact fun threaded => ⟨(rest.idle threaded).decoded, (rest.idle threaded).rendered⟩

/-- The source is no concern of the worker. -/
theorem feed {start : Stream σ} (rest : s.AtRest start) (source : Source) :
    AtRest start { s with stream := { s.stream with source } } := by
  refine ⟨⟨rest.reached.access (Stream.access_source source), rest.current, rest.reserved, rest.shown, rest.single⟩, ?_⟩
  exact fun threaded => ⟨(rest.idle threaded).decoded, (rest.idle threaded).rendered⟩

/-- Of the other actions, those that need the backend find it free. -/
theorem other (rest : s.AtRest (.ofBackend codec source options fresh)) (free : s.holdsBackend = false)
    (alone : ∀ pts g, a ≠ .overtake pts g) (keeps : ∀ g pts, a ≠ .acquire g pts) (stays : a ≠ .release)
    (survives : ∀ f, (s.perform a).2.stream.settle.worker ≠ .crashed f) :
    AtRest (.ofBackend codec source options fresh) ⟨(s.perform a).2.stream.settle, (s.perform a).2.held⟩ := by
  rw [s.held_perform alone keeps stays]
  rw [stream_perform] at survives ⊢
  exact (rest.turn alone keeps stays).settle free survives

/-- An action and the worker's turn after it end at rest. -/
theorem step (rest : s.AtRest (.ofBackend codec source options fresh)) (alone : ∀ pts g, a ≠ .overtake pts g)
    (renders : ∀ g pts, a = .acquire g pts → s.held = none → s.Renders g pts)
    (survives : ∀ f, (s.step a).2.stream.worker ≠ .crashed f) :
    (s.step a).2.AtRest (.ofBackend codec source options fresh) := by
  unfold Session.step at survives ⊢
  cases waits : s.holdsBackend && a.needsBackend with
  | true => exact rest
  | false =>
      rw [waits] at survives
      cases a with
      | acquire g pts => exact (rest.acquire g pts (renders g pts rfl)).1.still
      | release =>
          cases out : s.held with
          | none =>
              show AtRest _ ⟨s.release.2.stream.settle, s.release.2.held⟩
              rw [Session.release, out]
              exact rest.still
          | some f =>
              obtain ⟨t, released, rest', -⟩ := rest.release out
              show AtRest _ ⟨s.release.2.stream.settle, s.release.2.held⟩
              rw [Session.release, out]
              simp only [released]
              exact rest'.still
      | send p =>
          simp only [perform]
          cases s.stream.source.send? p with
          | some source => exact (rest.feed source).still
          | none => exact rest.still
      | close => exact (rest.feed _).still
      | overtake pts g => exact absurd rfl (alone pts g)
      | _ => exact rest.other (by simpa [Action.needsBackend] using waits) alone (by simp) (by simp) survives

/-- What every run keeps, whose acquires with nothing out have their frames rendered. -/
theorem run (rest : s.AtRest (.ofBackend codec source options fresh)) {actions : List Action}
    (alone : ∀ pts g, .overtake pts g ∉ actions)
    (renders : ∀ earlier g pts later, actions = earlier ++ .acquire g pts :: later →
      (s.run earlier).2.held = none → (s.run earlier).2.Renders g pts)
    (survives : ∀ f, (s.run actions).2.stream.worker ≠ .crashed f) :
    (s.run actions).2.AtRest (.ofBackend codec source options fresh) := by
  induction actions generalizing s with
  | nil => exact rest
  | cons a actions ih =>
      have aloneLater : ∀ pts g, .overtake pts g ∉ actions := fun pts g member =>
        alone pts g (List.mem_cons_of_mem _ member)
      have rest' : (s.step a).2.AtRest (.ofBackend codec source options fresh) := by
        refine rest.step (fun pts g same => alone pts g (same ▸ List.mem_cons_self)) ?_ ?_
        · rintro g pts rfl
          exact renders [] g pts actions rfl
        · exact not_crashed_of_run aloneLater survives
      refine ih rest' aloneLater ?_ survives
      intro earlier g pts later parts
      exact renders (a :: earlier) g pts later (congrArg (a :: ·) parts)

/-- With nothing out the stream ends, and everything in its cache is freed. -/
theorem close (rest : s.AtRest (.ofBackend codec source options fresh)) (nothingOut : s.held = none) :
    ∃ t, s.stream.close = .ok t ∧ t.cache.stats.live = 0 ∧
      t.cache.stats.storagesMade = t.cache.stats.storagesFreed ∧ t.backend = s.stream.backend.reset.close := by
  have sound := rest.reached.sound
  have noFrame : s.stream.current = none := rest.current.trans (by rw [nothingOut]; rfl)
  have con : s.stream.cache.Consistent s.stream.current.toList := sound.consistent
  rw [noFrame] at con
  obtain ⟨b, flushed, con', -, empty⟩ := con.flush
  have balanced : s.stream.cache.Balanced _ := sound.turns.balanced
  have storages := (balanced.flush flushed).stocked.storages
  have live := con'.live_eq_zero empty rfl
  have owners := b.arena.count_le_live Entry.isOwner
  refine ⟨{ s.stream with
    worker := .absent, cache := b, pending := [], backend := s.stream.backend.reset.close }, ?_, live, ?_, rfl⟩
  · rw [Stream.close, flushed]
    simp only [noFrame]
    rfl
  · show b.counters.storagesMade = b.counters.storagesFreed
    omega

theorem finish (rest : s.AtRest (.ofBackend codec source options fresh)) :
    ∃ t, s.finish = .ok t ∧ t.cache.stats.live = 0 ∧ t.cache.stats.storagesMade = t.cache.stats.storagesFreed ∧
      t.backend.calls = .close :: .reset :: s.stream.backend.calls := by
  cases out : s.held with
  | none =>
      obtain ⟨t, closed, live, storages, backend⟩ := rest.close out
      refine ⟨t, ?_, live, storages, congrArg LoggedBackend.calls backend⟩
      rw [Session.finish, out]
      show s.stream.settle.close = .ok t
      rw [rest.settled, closed]
  | some f =>
      obtain ⟨r, released, rest', same⟩ := rest.release out
      obtain ⟨t, closed, live, storages, backend⟩ := rest'.close rfl
      refine ⟨t, ?_, live, storages, ?_⟩
      · rw [Session.finish, out]
        simp only [released]
        show r.settle.close = .ok t
        rw [rest'.settled, closed]
      · rw [backend]
        exact congrArg (fun b => Call.close :: .reset :: b.calls) same

end AtRest

/-! ## Between two actions -/

/-- One frame is out at a time, and both sides know of it. -/
structure SingleFlight (s : Session σ) : Prop where
  current : ∀ h, s.stream.current = some h ↔ ∃ f, s.held = some f ∧ f.hold = .cached h
  shown : ∀ h, s.stream.current = some h → ∃ e, s.stream.cache.entry? h = some e ∧ e.isRendered = true
  reserved : s.stream.reserved = true ↔ ∃ f, s.held = some f ∧ f.hold = .reserved
  refused : s.held.isSome = true → ∀ g pts, (s.step (.acquire g pts)).2.held = s.held ∧
    ∃ misuse, (s.step (.acquire g pts)).1 = .fault (.checkout misuse)
  granted : s.held = none → ∀ g pts, s.Renders g pts →
    ∃ f, (s.step (.acquire g pts)).1 = .frame f ∧ (s.step (.acquire g pts)).2.held = some f
  released : (s.step .release).1 = .flag s.held.isSome ∧ (s.step .release).2.held = none
  /-- The frame that is out, if one is, goes back before the end. -/
  ended : ∃ t, s.finish = .ok t ∧ t.cache.stats.live = 0 ∧
    t.cache.stats.storagesMade = t.cache.stats.storagesFreed ∧
    t.backend.calls = .close :: .reset :: s.stream.backend.calls ∧ .close ∉ s.stream.backend.calls

theorem AtRest.singleFlight (rest : s.AtRest (.ofBackend codec source options fresh)) : s.SingleFlight where
  current h := by
    rw [rest.current, Option.bind_eq_some_iff]
    refine exists_congr fun f => and_congr_right fun _ => ?_
    obtain ⟨pts, frame, cached | -⟩ := f <;> simp [HeldFrame.entry?]
  shown h out := by
    obtain ⟨e, found⟩ := rest.reached.sound.live_current out
    exact ⟨e, found, (Cache.isRendered_eq found).symm.trans (rest.shown h out)⟩
  reserved := by
    rw [rest.reserved, holdsBackend, Option.any_eq_true]
    refine exists_congr fun f => and_congr_right fun _ => ?_
    obtain ⟨pts, frame, cached | -⟩ := f <;> simp [HeldFrame.isCached]
  refused out g pts := by
    have isOut : s.held ≠ none := Option.isSome_iff_ne_none.1 out
    obtain ⟨-, ⟨-, held, answer⟩ | ⟨nothingOut, -⟩⟩ := rest.acquire g pts fun nothingOut => absurd nothingOut isOut
    · rw [step_of_acquire]
      exact ⟨held, answer⟩
    · exact absurd nothingOut isOut
  granted nothingOut g pts renders := by
    obtain ⟨-, ⟨out, -⟩ | ⟨-, granted⟩⟩ := rest.acquire g pts fun _ => renders
    · exact absurd nothingOut (Option.isSome_iff_ne_none.1 out)
    · rw [step_of_acquire]
      exact granted
  released := by
    cases out : s.held with
    | none => simp [Session.step, Action.needsBackend, perform, Session.release, out]
    | some f =>
        obtain ⟨t, released, -⟩ := rest.release out
        simp [Session.step, Action.needsBackend, perform, Session.release, after, out, released]
  ended := by
    obtain ⟨t, ended, live, storages, calls⟩ := rest.finish
    exact ⟨t, ended, live, storages, calls, rest.reached.sound.served.not_closed⟩

theorem opened_atRest : (opened codec source options fresh).AtRest (.ofBackend codec source options fresh) :=
  ⟨⟨.start, rfl, rfl, Stream.shown_of_none rfl, fun _ => rfl⟩, fun _ => ⟨rfl, fun _ _ member => absurd member List.not_mem_nil⟩⟩

end Session

/-- After every run in which renders give frames, those of the worker and those of acquires with nothing
out, one frame is out at a time: the stream keeps an entry exactly while its cached frame is out, and
is reserved exactly while a frame rendered on demand is; an acquire is refused exactly while a frame is
out; whatever is out can be given back, and then the stream ends with nothing live. -/
theorem single_flight {fresh : σ} {codec : Codec} {source : Source} {options : Options} {actions : List Action}
    (alone : ∀ pts g, .overtake pts g ∉ actions)
    (renders : ∀ earlier g pts later, actions = earlier ++ .acquire g pts :: later →
      ((Session.opened codec source options fresh).run earlier).2.held = none →
      ((Session.opened codec source options fresh).run earlier).2.Renders g pts)
    (workerRenders : (Session.opened codec source options fresh).WorkerRenders actions) :
    ((Session.opened codec source options fresh).run actions).2.SingleFlight := by
  have survives := (Session.endures_opened_iff codec source options fresh alone).2 workerRenders
  exact (Session.opened_atRest.run alone renders survives).singleFlight

/-- While a cached frame is out, an acquire is refused, and a further time is queued. -/
def tallyHeld : List Action :=
  tallyActions ++ [.acquire ⟨8, 4, {}, .one⟩ .one, .acquire ⟨8, 4, {}, .one⟩ .zero, .request (.ofNat 2)]

theorem single_flight_tallyHeld :
    (∀ pts g, .overtake pts g ∉ tallyHeld) ∧ (∀ earlier g pts, (tallySession.run earlier).2.Renders g pts) ∧
      tallySession.WorkerRenders tallyHeld ∧ (tallySession.run tallyHeld).2.stream.worker = .running ∧
      (tallySession.run tallyHeld).2.stream.current = some ⟨1, 0⟩ ∧ (tallySession.run tallyHeld).2.SingleFlight := by
  have alone : ∀ pts g, .overtake pts g ∉ tallyHeld := by simp [tallyHeld, tallyActions]
  have renders : ∀ earlier g pts, (tallySession.run earlier).2.Renders g pts := fun _ _ _ => ⟨_, rfl⟩
  have workerRenders := TallyBackend.workerRenders tallySession tallyHeld
  exact ⟨alone, renders, workerRenders, by decide +kernel, by decide +kernel,
    single_flight alone (fun earlier g pts _ _ _ => renders earlier g pts) workerRenders⟩

/-! ## A reservation left behind -/

/-- While the stream is reserved, nothing is granted. -/
theorem Stream.acquire_of_reserved {s : Stream σ} (taken : s.reserved = true) (g : Geometry) (pts : Binary64) :
    ∃ f t, s.acquire g pts = (.fault f, t) ∧ t.reserved = true := by
  unfold acquire lookUp
  cases threaded : s.threaded with
  | false => exact ⟨_, s, if_pos taken, taken⟩
  | true =>
      cases adopted : s.adopt g with
      | error f => exact ⟨f, s, rfl, taken⟩
      | ok t =>
          have taken' : t.reserved = true := by
            rw [adopt_frame adopted]
            exact taken
          exact ⟨.checkout .acquiredTwice, t, by simp [taken'], taken'⟩

theorem Stream.reserved_settle (s : Stream σ) : s.settle.reserved = s.reserved := by
  rw [s.settle_frame]

namespace Session

variable {s : Session σ}

/-- The stream is reserved, and there is nothing that could be given back. -/
def Stuck (s : Session σ) : Prop := s.held = none ∧ s.stream.reserved = true

theorem Stuck.step_acquire (stuck : s.Stuck) (g : Geometry) (pts : Binary64) :
    (s.step (.acquire g pts)).2.Stuck ∧ ∃ f, (s.step (.acquire g pts)).1 = .fault f := by
  obtain ⟨nothingOut, taken⟩ := stuck
  obtain ⟨f, t, answer, taken'⟩ := Stream.acquire_of_reserved taken g pts
  rw [step_of_acquire]
  simp only [acquire, answer]
  exact ⟨⟨nothingOut, (Stream.reserved_settle t).trans taken'⟩, f, rfl⟩

theorem Stuck.step (stuck : s.Stuck) {a : Action} (alone : ∀ pts g, a ≠ .overtake pts g) : (s.step a).2.Stuck := by
  by_cases takes : ∃ g pts, a = .acquire g pts
  · obtain ⟨g, pts, rfl⟩ := takes
    exact (stuck.step_acquire g pts).1
  · have keeps : ∀ g pts, a ≠ .acquire g pts := fun g pts same => takes ⟨g, pts, same⟩
    unfold Session.step
    split
    · exact stuck
    · obtain ⟨nothingOut, taken⟩ := stuck
      show Stuck ⟨(s.perform a).2.stream.settle, (s.perform a).2.held⟩
      by_cases returns : a = .release
      · subst returns
        simp only [perform, release, nothingOut]
        exact ⟨rfl, (Stream.reserved_settle _).trans taken⟩
      · rw [s.held_perform alone keeps returns, stream_perform]
        refine ⟨nothingOut, (Stream.reserved_settle _).trans ?_⟩
        exact (s.undisturbed_turn alone keeps returns).reserved.trans taken

/-- There is no way out: whatever is called, no acquire is granted any more. -/
theorem Stuck.run (stuck : s.Stuck) {actions : List Action} (alone : ∀ pts g, .overtake pts g ∉ actions) :
    (s.run actions).2.Stuck ∧ ∀ g pts, ∃ f, ((s.run actions).2.step (.acquire g pts)).1 = .fault f := by
  induction actions generalizing s with
  | nil => exact ⟨stuck, fun g pts => (stuck.step_acquire g pts).2⟩
  | cons a actions ih =>
      refine ih (stuck.step ?_) ?_
      · intro pts g same
        exact alone pts g (same ▸ List.mem_cons_self)
      · intro pts g member
        exact alone pts g (List.mem_cons_of_mem _ member)

end Session

/-- One line, and a margin below that takes its place out of 64 bits. -/
def brokenRender : List Action :=
  [.offer (.ofText (some .zero) none "a"),
    .acquire ⟨10, 1, { bottom := ⟨0x7e37e43c8800759c⟩ }, .one⟩ .zero, .release]

/-- The render of the acquire overflows. Nothing is out then, but the stream stays reserved, and so an
acquire that would render is refused. -/
theorem reservation_outlives_fault :
    ∃ s, s = ((Session.opened ⟨"text", #[]⟩ (.ofPackets []) {} ({} : TextBackend)).run brokenRender).2 ∧
      s.held = none ∧ s.stream.reserved = true ∧ s.Renders ⟨160, 90, {}, .one⟩ .zero ∧
      (s.step (.acquire ⟨160, 90, {}, .one⟩ .zero)).1 = .fault (.checkout .alreadyReserved) :=
  ⟨_, rfl, by decide +kernel, by decide +kernel, by decide +kernel, by decide +kernel⟩

end Subtitles
