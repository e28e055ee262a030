/-
# Proofs.Session.Rest: the worker comes to rest, and then no acquire waits

Done with the task at hand (`works_complete`), the worker goes on in rounds. Each is one section of
its own after the other, unless its render faults (`works_of_round`), and there are only so many
until it waits (`works_settle`). It has no choice on its way (`work_unique`), so it cannot miss
that state (`Works.onward`).

What holds wherever the worker waits is `Settled`: everything is decoded, the queue is rendered as
far as it can be, and an acquire finds no entry that is still to be rendered. `worker_settles` puts
both together.
-/
import Subtitles.Proofs.Session.Underway
import Subtitles.Proofs.Stream.Acquire
import Subtitles.Proofs.TallyBackend
namespace Subtitles

set_option autoImplicit false

open LoggedBackend (Served Returns)

variable {σ : Type} [Backend σ]

namespace Underway

/-- Get done with the task at hand. -/
def complete (u : Underway σ) : Stream σ :=
  let s := u.stream
  match u.task with
  | none => s
  | some (.decode ps) => { s with backend := ps.foldl (fun b p => b.decode p) s.backend }
  | some (.render job pts before g) =>
    match s.backend.render .ahead g pts with
    | (.ok frame, backend) =>
      { s with backend }.finishRender ⟨job, frame, before.any fun p => s.backend.lastWas p g⟩
    | (.error f, backend) => { s with backend, worker := .crashed f }
  | some (.publish r) => s.finishRender r

/-- From one state the worker comes to another by sections of its own. -/
def Works : Underway σ → Underway σ → Prop := Relation.ReflTransGen Work

variable {fresh : σ} {n : Nat} {u v : Underway σ} {s s' : Stream σ}

theorem Sound.works (sound : u.Sound fresh n) (works : u.Works v) : v.Sound fresh n := by
  induction works with
  | refl => exact sound
  | tail _ work ih => exact ih.work work

theorem Sound.shown_works (sound : u.Sound fresh n) (shown : u.stream.Shown) (works : u.Works v) :
    v.stream.Shown := by
  induction works with
  | refl => exact shown
  | tail before work ih => exact (sound.works before).shown_work ih work

theorem Reached.works {start : Stream σ} (reached : Reached start u) (works : u.Works v) : Reached start v := by
  induction works with
  | refl => exact reached
  | tail _ work ih => exact ih.work work

theorem frame_works (works : u.Works v) (sound : u.Sound fresh n) :
    v.stream.worker = u.stream.worker ∧ v.stream.current = u.stream.current ∧
      v.stream.reserved = u.stream.reserved := by
  induction works with
  | refl => exact ⟨rfl, rfl, rfl⟩
  | tail before work ih =>
      obtain ⟨worker, current, reserved⟩ := frame_work work (sound.works before)
      exact ⟨worker.trans ih.1, current.trans ih.2.1, reserved.trans ih.2.2⟩

/-- The job that is next can be begun. -/
theorem Sound.begins (sound : Sound fresh n ⟨s, none⟩) {job : Job} {pts : Binary64}
    (next : s.nextJob = some (job, pts)) : ∃ b, s.cache.begin job = .ok b := by
  obtain ⟨-, first, -⟩ := Stream.nextJob_spec next
  obtain ⟨queued, -, predecessor⟩ := Cache.firstPending_spec first
  have con : s.cache.Consistent _ := sound.consistent
  obtain ⟨b, begun, -⟩ :=
    con.begin (con.live_of_queued queued) fun p same => con.live_of_queued (predecessor p same).1
  exact ⟨b, begun⟩

/-- A round is one section after the other, unless its render faults. -/
theorem works_of_round (round : s.Round s') (sound : Sound fresh n ⟨s, none⟩) (free : s.reserved = false) :
    Works ⟨s, none⟩ ⟨s', none⟩ ∨
      ∃ f pts, s'.worker = .crashed f ∧ (Backend.render s.geometry pts s.backend.state).1 = .error f := by
  cases round with
  | decode running waits => exact .inl (.head (.take running waits) (.single (.decode free)))
  | @render job pts running decoded next =>
      obtain ⟨b, begun⟩ := sound.begins next
      unfold Stream.carryOut Stream.startRender
      rw [begun]
      obtain ⟨frame, -, answer⟩ | ⟨f, faulted, answer⟩ := s.backend.render_cases .ahead s.geometry pts
      · rw [answer]
        exact .inl (.head (.select running decoded next begun) (.head (.render free answer) (.single .publish)))
      · rw [answer]
        exact .inr ⟨f, pts, rfl, congrArg Prod.fst faulted⟩

/-- A render on the worker's way faults, and ends it. -/
def Faults (s t : Stream σ) : Prop :=
  ∃ f r pts, t.worker = .crashed f ∧ Works ⟨s, none⟩ ⟨r, none⟩ ∧
    (Backend.render r.geometry pts r.backend.state).1 = .error f

/-- The worker's turn is sections of its own, unless a render in it faults. -/
theorem works_settle (sound : Sound fresh n ⟨s, none⟩) (free : s.reserved = false) :
    Works ⟨s, none⟩ ⟨s.settle, none⟩ ∨ Faults s s.settle := by
  have turned : (Works ⟨s, none⟩ ⟨s.settle, none⟩ ∧ s.settle.reserved = false) ∨ Faults s s.settle := by
    refine Stream.settle_induction
      (P := fun t => (Works ⟨s, none⟩ ⟨t, none⟩ ∧ t.reserved = false) ∨ Faults s t) (.inl ⟨.refl, free⟩) ?_
    rintro t t' (⟨works, free⟩ | ⟨f, -, -, crashed, -⟩) round
    · obtain next | ⟨f, pts, crashed, faulted⟩ := works_of_round round (sound.works works) free
      · exact .inl ⟨works.trans next, by rw [round.frame]; exact free⟩
      · exact .inr ⟨f, t, pts, crashed, works, faulted⟩
    · cases crashed.symm.trans round.running
  exact turned.imp_left And.left

/-- A round that does not end the worker keeps the invariant, whatever frame is out. -/
theorem Sound.round (sound : Sound fresh n ⟨s, none⟩) {t : Stream σ} (round : Stream.Round s t) :
    Sound fresh n ⟨t, none⟩ ∨ ∃ f, t.worker = .crashed f := by
  cases round with
  | decode => exact .inl (sound.quiet (t := s.decodePending) (sound.served.decodes s.pending) rfl rfl rfl)
  | @render job pts running decoded next =>
      obtain ⟨b, begun⟩ := sound.begins next
      have selected := sound.work (.select running decoded next begun)
      unfold Stream.carryOut Stream.startRender
      rw [begun]
      obtain ⟨frame, -, rendered⟩ | ⟨f, -, faulted⟩ := s.backend.render_cases .ahead s.geometry pts
      · have served := sound.served.render .ahead s.geometry pts
        rw [rendered] at served ⊢
        have drawn : Sound fresh n ⟨{ s with cache := b, backend := _ }, some (.publish
            ⟨job, frame, (job.predecessor.bind s.cache.pts?).any fun p => s.backend.lastWas p s.geometry⟩)⟩ :=
          ⟨served, selected.turns, selected.unrendered⟩
        exact .inl (drawn.work .publish)
      · rw [faulted]
        exact .inr ⟨f, rfl⟩

/-- The worker's turn keeps the invariant unless it ends the worker, whatever frame is out. -/
theorem Sound.settle (sound : Sound fresh n ⟨s, none⟩) (survives : ∀ f, s.settle.worker ≠ .crashed f) :
    Sound fresh n ⟨s.settle, none⟩ := by
  have turned : Sound fresh n ⟨s.settle, none⟩ ∨ ∃ f, s.settle.worker = .crashed f := by
    refine Stream.settle_induction (P := fun t => Sound fresh n ⟨t, none⟩ ∨ ∃ f, t.worker = .crashed f)
      (.inl sound) ?_
    rintro r t (sound | ⟨f, crashed⟩) round
    · exact sound.round round
    · cases crashed.symm.trans round.running
  obtain sound | ⟨f, crashed⟩ := turned
  · exact sound
  · exact absurd crashed (survives f)

theorem Sound.not_faults {t : Stream σ} (sound : Sound fresh n ⟨s, none⟩) (returns : Returns fresh) :
    ¬ Faults s t := by
  rintro ⟨f, r, pts, -, works, faulted⟩
  obtain ⟨frame, answer⟩ := returns r.backend (sound.works works).served r.geometry pts
  cases answer.symm.trans faulted

theorem works_complete (sound : u.Sound fresh n) (returns : Returns fresh) (free : u.stream.reserved = false) :
    Works u ⟨u.complete, none⟩ := by
  obtain ⟨s, task⟩ := u
  match task with
  | none => exact .refl
  | some (.decode ps) => exact .single (.decode free)
  | some (.publish r) => exact .single .publish
  | some (.render job pts before g) =>
      obtain ⟨frame, answer⟩ := returns s.backend sound.served g pts
      unfold complete
      obtain ⟨frame', -, rendered⟩ | ⟨f, faulted, -⟩ := s.backend.render_cases .ahead g pts
      · simp only [rendered]
        exact .head (.render free rendered) (.single .publish)
      · cases answer.symm.trans (congrArg Prod.fst faulted)

/-- The worker has no choice. -/
theorem work_unique {w : Underway σ} (work : u.Work v) (other : u.Work w) : v = w := by
  cases work with
  | take running waits =>
      cases other with
      | take => rfl
      | select _ decoded => exact absurd decoded waits
  | decode => cases other; rfl
  | select running decoded next begun =>
      cases other with
      | take _ waits => exact absurd decoded waits
      | select _ _ next' begun' =>
          cases next.symm.trans next'
          cases begun.symm.trans begun'
          rfl
  | render free answer =>
      cases other with
      | render _ answer' =>
          cases answer.symm.trans answer'
          rfl
  | publish => cases other; rfl

theorem not_work_of_rest (rest : s.workerStep = none) : ¬ Work ⟨s, none⟩ v := by
  intro work
  unfold Stream.workerStep at rest
  cases work with
  | take running waits => simp [running, waits] at rest
  | select running decoded next begun => simp [running, decoded, next] at rest

/-- Wherever the worker is on its way to rest, it gets there. -/
theorem Works.onward (works : u.Works ⟨s, none⟩) (rest : s.workerStep = none) (part : u.Works v) :
    v.Works ⟨s, none⟩ := by
  induction part with
  | refl => exact works
  | tail _ work ih =>
      obtain rfl | ⟨w, first, later⟩ := ih.cases_head
      · exact absurd work (not_work_of_rest rest)
      · rwa [work_unique work first]

/-! ## At rest -/

/-- What a look-up comes to where the worker waits: there is nothing to wait for, and nothing for the
worker to do. -/
inductive Looked (s : Stream σ) (pts : Binary64) : Lookup × Stream σ → Prop
  | refused {t : Stream σ} (busy : (s.current.isSome || s.reserved) = true) (shown : s.Shown → t.Shown)
      (current : t.current = s.current) (reserved : t.reserved = s.reserved) (idle : t.Idle) :
      Looked s pts (.refused (.checkout .acquiredTwice), t)
  | alone (single : s.threaded = false) : Looked s pts (.miss, s)
  | miss {t : Stream σ} (noFrame : s.current = none) (free : s.reserved = false) (current : t.current = none)
      (reserved : t.reserved = false) (backend : t.backend = s.backend) (idle : t.Idle) :
      Looked s pts (.miss, t)
  | hit {t : Stream σ} {h : Handle} {frame : Frame} (threaded : s.threaded = true) (noFrame : s.current = none)
      (free : s.reserved = false) (current : t.current = some h) (reserved : t.reserved = false)
      (rendered : t.cache.isRendered h = true) (idle : t.Idle) :
      Looked s pts (.hit ⟨pts, frame, .cached h⟩, t)

/-- Where all that is queued is rendered, what is taken out has its frame. -/
theorem Sound.looked (sound : u.Sound fresh n) (idle : u.stream.threaded = true → u.stream.Idle)
    (g : Geometry) (pts : Binary64) : Looked u.stream pts (u.stream.lookUp g pts) := by
  unfold Stream.lookUp
  split
  · next alone => exact .alone (by simpa using alone)
  · next notAlone =>
      have threaded : u.stream.threaded = true := by simpa using notAlone
      obtain ⟨t, done, sound', adopted⟩ := sound.adopt g
      have idle' := adopted.idle (idle threaded)
      rw [done]
      simp only
      split
      · next busy =>
          rw [adopted.current, adopted.reserved] at busy
          exact .refused busy adopted.shown adopted.current adopted.reserved idle'
      · next out =>
          obtain ⟨noFrame', free'⟩ : t.current = none ∧ t.reserved = false := by simpa using out
          have noFrame := adopted.current.symm.trans noFrame'
          have free := adopted.reserved.symm.trans free'
          split
          · exact .miss noFrame free noFrame' free' adopted.backend idle'
          · next visible =>
              have pixels : t.geometry.isVoid = false := by simpa [adopted.isVoid] using visible
              obtain ⟨hit, b, checked, sound'', carries, queued⟩ := sound'.checkOut noFrame' pixels pts
              rw [checked]
              cases hit with
              | none => exact .miss noFrame free noFrame' free' adopted.backend (idle'.carry carries rfl rfl)
              | some h =>
                  have rendered : b.isRendered h = true :=
                    (idle'.carry (t := { t with cache := b }) carries rfl rfl).rendered pixels h (queued h rfl)
                  have shows := (Cache.isSome_frame? sound''.consistent.accounted h).trans rendered
                  obtain ⟨frame, shown⟩ := Option.isSome_iff_exists.1 shows
                  have shown : b.frame? h = some frame := shown
                  simp only [Stream.resume, shown]
                  exact .hit threaded noFrame free rfl free' rendered (idle'.carry carries rfl rfl)

omit [Backend σ] in
theorem Looked.ne_waiting {s : Stream σ} {pts : Binary64} {answer : Lookup × Stream σ}
    (looked : Looked s pts answer) (h : Handle) : answer.1 ≠ .waiting h := by
  cases looked <;> exact nofun

/-- What holds where the worker waits. -/
structure Settled (t : Stream σ) : Prop where
  decoded : t.pending = []
  queue : (t.geometry.isVoid = true ∧ ∀ h ∈ t.cache.queue, t.cache.isRendered h = false) ∨
    ∀ h ∈ t.cache.queue, t.cache.isRendered h = true
  lookUp : ∀ g pts h, (t.lookUp g pts).1 ≠ .waiting h
  acquire : ∀ g pts, (t.acquire g pts).1 ≠ .stalled

theorem Sound.settled (sound : Sound fresh n ⟨s, none⟩) (running : s.worker = .running)
    (rest : s.workerStep = none) : Settled s := by
  have idle : s.Idle := Stream.idle_of_rest sound.consistent running rest
  have never := fun g pts => (sound.looked (fun _ => idle) g pts).ne_waiting
  refine ⟨idle.decoded, ?_, never, fun g pts => Stream.acquire_ne_stalled (never g pts)⟩
  cases void : s.geometry.isVoid with
  | true => exact .inl ⟨rfl, (sound.unrendered void).1⟩
  | false => exact .inr (idle.rendered void)

end Underway

theorem Stream.worker_ofBackend {codec : Codec} {source : Source} {options : Options} {fresh : σ}
    (threaded : (Stream.ofBackend codec source options fresh).threaded = true) :
    (Stream.ofBackend codec source options fresh).worker = .running := by
  unfold Stream.threaded Stream.ofBackend at *
  simp only at threaded ⊢
  split <;> simp_all

/-- With a backend whose renders return, and with no frame rendered on demand out, the worker comes to
rest from wherever callers and it have got to, after the task at hand and no more rounds than there
are entries queued and one; and wherever it is by then on its way, it gets there. Whenever it rests,
all packets are decoded, the queue is rendered, or not at all while the geometry has no pixels, and
no acquire would wait. -/
theorem worker_settles {fresh : σ} (returns : Returns fresh) {codec : Codec} {source : Source}
    {options : Options} (threaded : (Stream.ofBackend codec source options fresh).threaded = true)
    {u : Underway σ} (reached : Underway.Reached (.ofBackend codec source options fresh) u) :
    (u.stream.reserved = false → ∃ t, t = u.complete.settleWithin (u.complete.cache.queue.length + 1) ∧
      t.workerStep = none ∧ (∀ v, u.Works v → v.Works ⟨t, none⟩) ∧ Underway.Settled t) ∧
    (u.task = none → u.stream.workerStep = none → Underway.Settled u.stream) := by
  have sound := reached.sound
  have running := reached.worker.trans (Stream.worker_ofBackend threaded)
  refine ⟨fun free => ?_, fun idle rest => ?_⟩
  · have done := Underway.works_complete sound returns free
    have sound₁ := sound.works done
    obtain ⟨worker₁, -, reserved₁⟩ := Underway.frame_works done sound
    obtain settles | faults := Underway.works_settle sound₁ (reserved₁.trans free)
    · obtain ⟨worker₂, -⟩ := Underway.frame_works settles sound₁
      have running₂ : u.complete.settle.worker = .running := worker₂.trans (worker₁.trans running)
      have rest := Stream.rest_of_idle (Stream.settle_idle sound₁.consistent running₂)
      refine ⟨u.complete.settle, rfl, rest, fun v part => ?_, (sound₁.works settles).settled running₂ rest⟩
      exact Underway.Works.onward (Relation.ReflTransGen.trans done settles) rest part
    · exact absurd faults (sound₁.not_faults returns)
  · obtain ⟨s, task⟩ := u
    obtain rfl : task = none := idle
    exact sound.settled running rest

/-- A stream that renders ahead. -/
def tallyStream : Stream TallyBackend :=
  .ofBackend ⟨"mock", #[]⟩ (.ofPackets []) { renderAhead := 2 } {}

/-- One entry is requested for a geometry with pixels. -/
def tallyRequested : Stream TallyBackend := (tallyStream.lookUp ⟨8, 4, {}, .one⟩ .zero).2.request .zero

/-- The worker is about to render the entry, and a packet has come in since. -/
def tallyRendering : Underway TallyBackend where
  stream := { tallyRequested with
    cache := (tallyRequested.cache.begin ⟨⟨0, 0⟩, none⟩).toOption.getD tallyRequested.cache
    pending := [⟨some .one, none, #[]⟩] }
  task := some (.render ⟨⟨0, 0⟩, none⟩ .zero none ⟨8, 4, {}, .one⟩)

theorem reached_tallyRendering : Underway.Reached tallyStream tallyRendering := by
  have looked : Underway.Reached tallyStream ⟨_, none⟩ := .lookUp ⟨8, 4, {}, .one⟩ .zero .start
  have requested : Underway.Reached tallyStream ⟨tallyRequested, none⟩ := .access looked (.request .zero)
  have selected := requested.work (.select rfl rfl rfl rfl)
  exact selected.access (.packets _ _ _ [⟨some .one, none, #[]⟩])

theorem worker_settles_tallyRendering :
    Returns ({} : TallyBackend) ∧ tallyStream.threaded = true ∧ Underway.Reached tallyStream tallyRendering ∧
      tallyRendering.stream.reserved = false ∧
      ∃ t, t = tallyRendering.complete.settleWithin (tallyRendering.complete.cache.queue.length + 1) ∧
        t.workerStep = none ∧ tallyRendering.Works ⟨t, none⟩ ∧ Underway.Settled t := by
  obtain ⟨rests, -⟩ := worker_settles (TallyBackend.returns {}) rfl reached_tallyRendering
  obtain ⟨t, became, rest, onward, settled⟩ := rests rfl
  exact ⟨TallyBackend.returns {}, rfl, reached_tallyRendering, rfl, t, became, rest, onward _ .refl, settled⟩

end Subtitles
