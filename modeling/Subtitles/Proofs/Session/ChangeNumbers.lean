/-
# Proofs.Session.ChangeNumbers: what the numbers of two cached frames tell

A number other than 0 is given to one frame, so two cached frames with one such number are one. The
number 0 refers to the render call before, and that may have been on demand. Two frames with the
number 0 are told to be the same only if none was, since the first was rendered ahead. Then whatever
the worker renders shows the first frame too, or has another number (`Stream.Continues`); and after a
reset its frames have other numbers at once.

`change_numbers_tell` puts this together for text, and `change_number_misleads` is a run with a
render on demand at the wrong place.
-/
import Subtitles.Proofs.Session.Cached
import Subtitles.Proofs.Stream.Chained
import Subtitles.Proofs.TextBackend.Changes
namespace Subtitles

set_option autoImplicit false

open LoggedBackend (Served SoundChanges FirstChanges DistinctChanges)

/-! ## After a cached frame -/

namespace Stream

variable {σ : Type} {s t : Stream σ} {done waiting : List Handle} {first : Frame}

/-- Since `first` was rendered ahead nothing was rendered on demand, and what is rendered of the queue
shows it or has a number other than 0. With nothing rendered there, there is no render call for the
next one to repeat. -/
structure Tells (first : Frame) (s : Stream σ) (done : List Handle) : Prop where
  self : s.geometry.Same s.geometry
  unbroken : ∀ h ∈ done, ∀ p, s.cache.pts? h = some p → p.Same p → s.Unbroken h
  shown : ∀ h ∈ done, ∃ f, s.cache.frame? h = some f ∧ (f = first ∨ f.changeId ≠ 0)
  unrendered : done = [] → s.backend.latest = none

def Continues (first : Frame) (s : Stream σ) : Prop :=
  ∃ done waiting, s.Chained done waiting ∧ s.Tells first done

theorem Continues.silent (continues : s.Continues first) (silent : Silent s t) : t.Continues first := by
  obtain ⟨done, waiting, chained, tells⟩ := continues
  obtain ⟨waiting', upTo, same⟩ := silent.cache done waiting chained.upTo
  refine ⟨done, waiting', chained.later silent.later upTo (List.suffix_refl _) same, ?_, ?_, ?_, ?_⟩
  · rw [silent.geometry]
    exact tells.self
  · intro h member p time normal
    have unbroken := tells.unbroken h member p ((same h member).1.symm.trans time) normal
    exact (silent.later.unbroken_iff (same h member).1).2 ⟨unbroken, silent.demands⟩
  · intro h member
    rw [(same h member).2]
    exact tells.shown h member
  · intro none
    rw [silent.latest]
    exact tells.unrendered none

/-- From its first entry on the chain is unbroken, so all that follows repeats it or is told apart. -/
theorem Chained.continues {h : Handle} (chained : s.Chained (h :: done) waiting) (unbroken : s.Unbroken h)
    (showing : s.cache.frame? h = some first) : s.Continues first := by
  have linked := (List.pairwise_cons.1 chained.linked).1
  refine ⟨h :: done, waiting, chained, unbroken.geometry, ?_, ?_, nofun⟩
  · intro k member p _ _
    rcases List.mem_cons.1 member with rfl | behind
    · exact unbroken
    · exact (linked k behind unbroken).1
  · intro k member
    rcases List.mem_cons.1 member with rfl | behind
    · exact ⟨first, showing, .inl rfl⟩
    · obtain same | ⟨f, shown, number⟩ := (linked k behind unbroken).2
      · exact ⟨first, same.trans showing, .inl rfl⟩
      · exact ⟨f, shown, .inr number⟩

variable [Backend σ] {fresh : σ} {since : List Call}

theorem Tells.extend {rest : List Handle} {entry : Handle} {pts : Binary64} {frame : Frame}
    (tells : s.Tells first done) (chained : s.Chained done waiting)
    (renders : Renders done rest entry pts frame s t) (firsts : FirstChanges fresh)
    (served : Served fresh s.backend) : t.Tells first (done ++ [entry]) := by
  refine ⟨?_, ?_, ?_, fun none => absurd none (by simp)⟩
  · rw [renders.geometry]
    exact tells.self
  · intro h member p time normal
    rcases List.mem_append.1 member with old | new
    · have unbroken := tells.unbroken h old p ((renders.same h old).1.symm.trans time) normal
      exact (renders.unbroken_iff old).2 unbroken
    · rw [List.mem_singleton.1 new] at time ⊢
      obtain rfl := Option.some.inj (renders.time.symm.trans time)
      exact renders.unbroken_entry tells.self normal
  · intro h member
    rcases List.mem_append.1 member with old | new
    · rw [(renders.same h old).2]
      exact tells.shown h old
    · rw [List.mem_singleton.1 new]
      obtain none | ⟨front, l, parts⟩ := List.eq_nil_or_concat done
      · subst none
        obtain ⟨l, last, -⟩ | ⟨own, -⟩ := renders.shown
        · exact absurd last nofun
        · exact ⟨frame, own, .inr (firsts _ served (tells.unrendered rfl) _ _ _ _ renders.answer)⟩
      · have last : done.getLast? = some l := by rw [parts, List.concat_eq_append, List.getLast?_concat]
        have there := List.mem_of_getLast? last
        obtain ⟨p, time, before⟩ := renders.earlier l there
        have unbroken := tells.unbroken l there p time (Binary64.same_self_iff.2 before.1.1)
        obtain shared | ⟨own, number⟩ := renders.repeats chained last unbroken
        · rw [shared]
          exact tells.shown l there
        · exact ⟨frame, own, .inr number⟩

theorem Continues.round (continues : s.Continues first) (faithful : s.Faithful fresh since)
    (firsts : FirstChanges fresh) (round : Round s t) : t.Continues first := by
  obtain ⟨lost, con⟩ := faithful.cache
  obtain ⟨done, waiting, chained, tells⟩ := continues
  obtain silent | ⟨entry, rest, pts, frame, renders⟩ := round.cases con chained.upTo
  · exact Continues.silent ⟨done, waiting, chained, tells⟩ silent
  · exact ⟨_, rest, chained.extend renders, tells.extend chained renders firsts faithful.served⟩

/-- What every run keeps: faithful, with a chained queue and a log that grows. -/
structure Orderly (fresh : σ) (log : List Call) (s : Stream σ) : Prop where
  faithful : ∃ since, s.Faithful fresh since
  chained : ∃ done waiting, s.Chained done waiting
  grown : log <:+ s.backend.calls

theorem Orderly.round {log : List Call} (orderly : s.Orderly fresh log) (sound : SoundChanges fresh)
    (round : Round s t) : t.Orderly fresh log := by
  obtain ⟨⟨since, faithful⟩, ⟨done, waiting, chained⟩, grown⟩ := orderly
  obtain ⟨lost, con⟩ := faithful.cache
  refine ⟨⟨since, faithful.round sound round⟩, chained.round con round, grown.trans ?_⟩
  obtain silent | ⟨entry, rest, pts, frame, renders⟩ := round.cases con chained.upTo
  · exact silent.calls
  · exact renders.calls

/-- A reset drops what is queued, and forgets the latest render call. -/
theorem Faithful.reset_eq (faithful : s.Faithful fresh since) :
    ∃ b, b.queue = [] ∧
      s.reset = .ok { s with backend := s.backend.reset, lastRead := none, cache := b, pending := [] } := by
  obtain ⟨b, flushed, -, empty⟩ := faithful.flush
  refine ⟨b, empty, ?_⟩
  rw [Stream.reset, flushed]
  rfl

end Stream

/-! ## Runs -/

namespace Session

variable {σ : Type} [Backend σ] {fresh : σ} {since log : List Call} {s s' : Session σ} {first : Frame}

/-- An action renders nothing, or is a reset or an acquire. -/
theorem turn_cases (faithful : s.stream.Faithful fresh since) {a : Action} (alone : ∀ pts g, a ≠ .overtake pts g) :
    Stream.Silent s.stream (s.turn a) ∨
      (∃ b, b.queue = [] ∧ s.turn a =
        { s.stream with backend := s.stream.backend.reset, lastRead := none, cache := b, pending := [] }) ∨
      ∃ g pts, a = .acquire g pts := by
  cases a with
  | offer p => exact .inl (Stream.silent_offer faithful.threaded p)
  | request pts => exact .inl (Stream.silent_request faithful pts)
  | prepare pts => exact .inl (Stream.silent_prepare faithful pts)
  | drain =>
      rw [turn]
      split
      · exact .inl (.refl _)
      · exact .inl (Stream.silent_drain faithful.threaded)
  | text pts => exact .inl (Stream.silent_text pts _)
  | control command => exact .inl (Stream.silent_control command _)
  | select on => exact .inl (.of_call rfl rfl rfl)
  | video params => exact .inl (Stream.silent_noteVideo params _)
  | reset =>
      obtain ⟨b, empty, reset⟩ := faithful.reset_eq
      refine .inr (.inl ⟨b, empty, ?_⟩)
      rw [turn, reset]
      rfl
  | acquire g pts => exact .inr (.inr ⟨g, pts, rfl⟩)
  | release =>
      obtain kept | ⟨f, -, released⟩ := s.turn_release_cases
      · rw [kept]
        exact .inl (.refl _)
      · exact .inl (Stream.silent_release faithful released)
  | send p =>
      obtain kept | ⟨source, -, became⟩ := s.turn_send_cases p
      · rw [kept]
        exact .inl (.refl _)
      · rw [became]
        exact .inl (.of_same rfl rfl rfl)
  | close => exact .inl (.of_same rfl rfl rfl)
  | overtake pts g => exact absurd rfl (alone pts g)

/-- What the turn of an action keeps and every round of the worker keeps, the action keeps. -/
theorem step_induction {P : Stream σ → Prop} {a : Action} (start : P s.stream) (turn : P (s.turn a))
    (round : ∀ r t, P r → Stream.Round r t → P t) : P (s.step a).2.stream := by
  unfold step
  split
  · exact start
  · show P (s.perform a).2.stream.settle
    rw [stream_perform]
    exact Stream.settle_induction turn round

/-- What every action of a list keeps holds after all of them. -/
theorem run_induction {P : Session σ → Prop} {actions : List Action} (start : P s)
    (step : ∀ s, ∀ a ∈ actions, P s → P (s.step a).2) : P (s.run actions).2 := by
  induction actions generalizing s with
  | nil => exact start
  | cons a rest ih =>
      exact ih (step s a List.mem_cons_self start) fun s b member => step s b (List.mem_cons_of_mem _ member)

theorem turn_orderly (orderly : s.stream.Orderly fresh log) {a : Action} (alone : ∀ pts g, a ≠ .overtake pts g) :
    (s.turn a).Orderly fresh log := by
  obtain ⟨⟨since, faithful⟩, ⟨done, waiting, chained⟩, grown⟩ := orderly
  obtain ⟨since', faithful', -⟩ := turn_faithful faithful alone
  obtain silent | ⟨b, empty, became⟩ | ⟨g, pts, rfl⟩ := turn_cases faithful alone
  · obtain ⟨waiting', chained'⟩ := chained.silent silent
    exact ⟨⟨since', faithful'⟩, ⟨done, waiting', chained'⟩, grown.trans silent.calls⟩
  · rw [became] at faithful' ⊢
    exact ⟨⟨since', faithful'⟩, ⟨[], [], Stream.chained_of_queue_nil empty⟩, grown.trans (List.suffix_cons _ _)⟩
  · obtain ⟨chained', grown'⟩ := chained.acquire faithful g pts
    exact ⟨⟨since', faithful'⟩, chained', grown.trans grown'⟩

theorem step_orderly (orderly : s.stream.Orderly fresh log) (sound : SoundChanges fresh) {a : Action}
    (alone : ∀ pts g, a ≠ .overtake pts g) : (s.step a).2.stream.Orderly fresh log :=
  step_induction orderly (turn_orderly orderly alone) fun _ _ orderly round => orderly.round sound round

theorem run_orderly (orderly : s.stream.Orderly fresh log) (sound : SoundChanges fresh) {actions : List Action}
    (alone : ∀ pts g, .overtake pts g ∉ actions) : (s.run actions).2.stream.Orderly fresh log := by
  refine run_induction (P := fun s => s.stream.Orderly fresh log) orderly ?_
  intro s a member orderly
  exact step_orderly orderly sound fun pts g same => alone pts g (same ▸ member)

/-- Without an acquire, what follows a cached frame goes on as it began. -/
theorem turn_continues (faithful : s.stream.Faithful fresh since) (continues : s.stream.Continues first)
    {a : Action} (alone : ∀ pts g, a ≠ .overtake pts g) (idle : ∀ g pts, a ≠ .acquire g pts) :
    (s.turn a).Continues first := by
  obtain silent | ⟨b, empty, became⟩ | ⟨g, pts, isAcquire⟩ := turn_cases faithful alone
  · exact continues.silent silent
  · obtain ⟨done, waiting, chained, tells⟩ := continues
    rw [became]
    refine ⟨[], [], Stream.chained_of_queue_nil empty, tells.self, ?_, ?_, fun _ => rfl⟩
    · exact fun _ member => absurd member List.not_mem_nil
    · exact fun _ member => absurd member List.not_mem_nil
  · exact absurd isAcquire (idle g pts)

theorem run_continues (orderly : s.stream.Orderly fresh log) (continues : s.stream.Continues first)
    (sound : SoundChanges fresh) (firsts : FirstChanges fresh) {actions : List Action}
    (alone : ∀ pts g, .overtake pts g ∉ actions) (idle : ∀ g pts, .acquire g pts ∉ actions) :
    (s.run actions).2.stream.Continues first := by
  have kept : (s.run actions).2.stream.Orderly fresh log ∧ (s.run actions).2.stream.Continues first := by
    refine run_induction (P := fun s => s.stream.Orderly fresh log ∧ s.stream.Continues first)
      ⟨orderly, continues⟩ ?_
    rintro s a member ⟨orderly, continues⟩
    have alone : ∀ pts g, a ≠ .overtake pts g := fun pts g same => alone pts g (same ▸ member)
    have idle : ∀ g pts, a ≠ .acquire g pts := fun g pts same => idle g pts (same ▸ member)
    obtain ⟨since, faithful⟩ := orderly.faithful
    refine step_induction (P := fun r => r.Orderly fresh log ∧ r.Continues first) ⟨orderly, continues⟩
      ⟨turn_orderly orderly alone, turn_continues faithful continues alone idle⟩ ?_
    rintro r t ⟨orderly, continues⟩ round
    obtain ⟨since, faithful⟩ := orderly.faithful
    exact ⟨orderly.round sound round, continues.round faithful firsts round⟩
  exact kept.2

theorem opened_orderly {codec : Codec} {source : Source} {options : Options}
    (threaded : (Stream.ofBackend codec source options fresh).threaded = true) :
    (opened codec source options fresh).stream.Orderly fresh [] :=
  ⟨⟨[], opened_faithful threaded⟩, ⟨[], [], Stream.chained_of_queue_nil rfl⟩, List.nil_suffix⟩

/-! ## Two frames -/

/-- Two cached frames with one number and no acquire between them are one, if the number is not 0, or
nothing was rendered on demand since the first of them was rendered ahead. -/
theorem frame_eq_of_changeId (orderly : s.stream.Orderly fresh log) (sound : SoundChanges fresh)
    (firsts : FirstChanges fresh) (distinct : DistinctChanges fresh) {between : List Action}
    (alone : ∀ pts g, .overtake pts g ∉ between) (idle : ∀ g pts, .acquire g pts ∉ between)
    {g g' : Geometry} {pts pts' : Binary64} {f f' : HeldFrame}
    (answer : s.step (.acquire g pts) = (.frame f, s')) (cached : f.isCached = true)
    (answer' : ((s'.run between).2.step (.acquire g' pts')).1 = .frame f') (cached' : f'.isCached = true)
    (equal : f.frame.changeId = f'.frame.changeId)
    (told : f.frame.changeId ≠ 0 ∨
      demandsBefore pts s.stream.backend.calls = demands s.stream.backend.calls) :
    f.frame = f'.frame := by
  obtain ⟨⟨since, faithful⟩, ⟨done, waiting, chained⟩, -⟩ := orderly
  obtain ⟨t, acquired, became⟩ := step_acquire answer
  obtain ⟨same, geometry, backend, h, p, done', waiting', chained', time, samePts, showing, -⟩ :=
    chained.hit faithful acquired cached
  have faithful' : t.Faithful fresh since := by
    have kept := (faithful.acquire_same same pts).1
    rwa [acquired] at kept
  have orderlyT : t.Orderly fresh t.backend.calls :=
    ⟨⟨since, faithful'⟩, ⟨_, waiting', chained'⟩, List.suffix_refl _⟩
  have orderly' : s'.stream.Orderly fresh t.backend.calls := by
    rw [became]
    exact Stream.settle_induction orderlyT fun _ _ orderly round => orderly.round sound round
  have orderlyEnd := run_orderly orderly' sound alone
  obtain ⟨sinceEnd, faithfulEnd⟩ := orderlyEnd.faithful
  obtain ⟨tEnd, acquiredEnd, -⟩ := step_acquire (Prod.ext answer' rfl)
  by_cases number : f.frame.changeId = 0
  · -- The chain is unbroken from the first frame on, up to the second.
    have alone' : demandsBefore p t.backend.calls = demands t.backend.calls := by
      rw [backend, demandsBefore_congr samePts]
      exact told.resolve_left (not_not_intro number)
    have unbroken : t.Unbroken h :=
      ⟨geometry ▸ same.trans same.symm, p, time, samePts.trans samePts.symm, alone'⟩
    have continuesT : t.Continues f.frame := chained'.continues unbroken showing
    have kept : s'.stream.Orderly fresh t.backend.calls ∧ s'.stream.Continues f.frame := by
      rw [became]
      refine Stream.settle_induction (P := fun r => r.Orderly fresh t.backend.calls ∧ r.Continues f.frame)
        ⟨orderlyT, continuesT⟩ ?_
      rintro r u ⟨orderly, continues⟩ round
      obtain ⟨since, faithful⟩ := orderly.faithful
      exact ⟨orderly.round sound round, continues.round faithful firsts round⟩
    obtain ⟨doneEnd, waitingEnd, chainedEnd, tells⟩ := run_continues kept.1 kept.2 sound firsts alone idle
    obtain ⟨-, -, -, k, -, -, -, -, -, -, -, there, showingEnd⟩ :=
      chainedEnd.hit faithfulEnd acquiredEnd cached'
    obtain ⟨shown, isShown, repeated | unlike⟩ := tells.shown k there
    · obtain rfl := Option.some.inj (isShown.symm.trans showingEnd)
      exact repeated.symm
    · obtain rfl := Option.some.inj (isShown.symm.trans showingEnd)
      exact absurd (equal.symm.trans number) unlike
  · -- Both frames are in the log.
    obtain ⟨doneEnd, waitingEnd, chainedEnd⟩ := orderlyEnd.chained
    obtain ⟨-, -, -, k, -, -, -, -, -, -, -, there, showingEnd⟩ :=
      chainedEnd.hit faithfulEnd acquiredEnd cached'
    obtain ⟨drawn, logged, isDrawn⟩ := chained'.logged h List.mem_cons_self
    obtain rfl := Option.some.inj (isDrawn.symm.trans showing)
    obtain ⟨drawn', logged', isDrawn'⟩ := chainedEnd.logged k there
    obtain rfl := Option.some.inj (isDrawn'.symm.trans showingEnd)
    exact distinct _ faithfulEnd.served _ ((orderlyEnd.grown.filterMap _).subset logged) _ logged' equal number

end Session

/-- Two cached frames of text with no acquire between them show the same where their numbers are equal,
if these are not 0, or nothing was rendered on demand since the first frame was rendered ahead. -/
theorem change_numbers_tell {codec : Codec} {source : Source} {options : Options}
    (threaded : (Stream.ofBackend codec source options ({} : TextBackend)).threaded = true)
    {before between : List Action} (alone : ∀ pts g, .overtake pts g ∉ before ++ between)
    (idle : ∀ g pts, .acquire g pts ∉ between) {s s' : Session TextBackend}
    (ran : ((Session.opened codec source options ({} : TextBackend)).run before).2 = s)
    {g g' : Geometry} {pts pts' : Binary64} {f f' : HeldFrame}
    (answer : s.step (.acquire g pts) = (.frame f, s')) (cached : f.isCached = true)
    (answer' : ((s'.run between).2.step (.acquire g' pts')).1 = .frame f') (cached' : f'.isCached = true)
    (equal : f.frame.changeId = f'.frame.changeId)
    (told : f.frame.changeId ≠ 0 ∨
      demandsBefore pts s.stream.backend.calls = demands s.stream.backend.calls) :
    f.frame.SameContent f'.frame := by
  have numbered : ({} : TextBackend).Numbered := ⟨List.nodup_nil, fun _ member => absurd member List.not_mem_nil⟩
  have sound := TextBackend.soundChanges numbered rfl
  have firsts := TextBackend.firstChanges numbered rfl
  have orderly : ((Session.opened codec source options ({} : TextBackend)).run before).2.stream.Orderly {} [] :=
    Session.run_orderly (Session.opened_orderly threaded) sound fun pts g member =>
      alone pts g (List.mem_append_left _ member)
  rw [ran] at orderly
  have same : f.frame = f'.frame :=
    Session.frame_eq_of_changeId orderly sound firsts (TextBackend.distinctChanges _)
      (fun pts g member => alone pts g (List.mem_append_right _ member)) idle answer cached answer' cached' equal told
  rw [same]
  exact ⟨rfl, rfl⟩

/-! ## With and without a render on demand between -/

/-- One line to come at three, for three seconds. -/
def hiPacket : Packet := .ofText (some (.ofNat 3)) (some (.ofNat 3)) "hi"

def hiGeometry : Geometry := { width := 160, height := 90 }

/-- The line is rendered on demand, which tells the geometry. -/
def hiShown : List Action := [.offer hiPacket, .acquire hiGeometry (.ofNat 3), .release]

def hiSession (actions : List Action) : Session TextBackend :=
  ((Session.opened ⟨"text", #[]⟩ (.ofPackets []) { renderAhead := 4 } {}).run (hiShown ++ actions)).2

/-- Two more times are rendered ahead. The first repeats the render on demand, and so has the number
0; the second shares it. -/
theorem change_numbers_tell_hi :
    ∃ f f' s', (hiSession [.request (.ofNat 4), .request (.ofNat 5)]).step (.acquire hiGeometry (.ofNat 4)) =
        (.frame f, s') ∧ f.isCached = true ∧
      ((s'.run [.release]).2.step (.acquire hiGeometry (.ofNat 5))).1 = .frame f' ∧ f'.isCached = true ∧
      f.frame.changeId = 0 ∧ f'.frame.changeId = 0 ∧ f.frame.SameContent f'.frame := by
  generalize ran : hiSession [.request (.ofNat 4), .request (.ofNat 5)] = s
  have first : (s.step (.acquire hiGeometry (.ofNat 4))).1.cached?.any (·.frame.changeId == 0) = true := by
    rw [← ran]
    decide +kernel
  have second : (((s.step (.acquire hiGeometry (.ofNat 4))).2.run [.release]).2.step
      (.acquire hiGeometry (.ofNat 5))).1.cached?.any (·.frame.changeId == 0) = true := by
    rw [← ran]
    decide +kernel
  have alone : demandsBefore (.ofNat 4) s.stream.backend.calls = demands s.stream.backend.calls := by
    rw [← ran]
    decide +kernel
  obtain ⟨f, answer, number⟩ := (Option.any_eq_true ..).1 first
  obtain ⟨f', answer', number'⟩ := (Option.any_eq_true ..).1 second
  obtain ⟨given, cached⟩ := Answer.eq_of_cached? answer
  obtain ⟨given', cached'⟩ := Answer.eq_of_cached? answer'
  have zero : f.frame.changeId = 0 := by simpa using number
  have zero' : f'.frame.changeId = 0 := by simpa using number'
  refine ⟨f, f', _, Prod.ext given rfl, cached, given', cached', zero, zero', ?_⟩
  have threaded : (Stream.ofBackend ⟨"text", #[]⟩ (.ofPackets []) { renderAhead := 4 } ({} : TextBackend)).threaded =
    true := rfl
  exact change_numbers_tell threaded (by simp [hiShown]) (by simp) ran (Prod.ext given rfl) cached given' cached'
    (zero.trans zero'.symm) (.inr alone)

/-- The first repeats the render on demand. Before the second there is another, for a time without a
line, and the second repeats that one. Both have the number 0. -/
theorem change_number_misleads :
    ∃ f f' s', (hiSession [.request (.ofNat 3), .acquire hiGeometry (.ofNat 2), .release, .request (.ofNat 6)]).step
        (.acquire hiGeometry (.ofNat 3)) = (.frame f, s') ∧ f.isCached = true ∧
      ((s'.run [.release]).2.step (.acquire hiGeometry (.ofNat 6))).1 = .frame f' ∧ f'.isCached = true ∧
      f.frame.changeId = f'.frame.changeId ∧ ¬ f.frame.SameContent f'.frame := by
  generalize ran : hiSession [.request (.ofNat 3), .acquire hiGeometry (.ofNat 2), .release, .request (.ofNat 6)] = s
  have first : (s.step (.acquire hiGeometry (.ofNat 3))).1.cached?.any
      (fun f => f.frame.changeId == 0 && f.frame.format == .alpha8) = true := by
    rw [← ran]
    decide +kernel
  have second : (((s.step (.acquire hiGeometry (.ofNat 3))).2.run [.release]).2.step
      (.acquire hiGeometry (.ofNat 6))).1.cached?.any
        (fun f => f.frame.changeId == 0 && f.frame.format == .empty) = true := by
    rw [← ran]
    decide +kernel
  obtain ⟨f, answer, shown⟩ := (Option.any_eq_true ..).1 first
  obtain ⟨f', answer', shown'⟩ := (Option.any_eq_true ..).1 second
  obtain ⟨given, cached⟩ := Answer.eq_of_cached? answer
  obtain ⟨given', cached'⟩ := Answer.eq_of_cached? answer'
  obtain ⟨zero, drawn⟩ : f.frame.changeId = 0 ∧ f.frame.format = .alpha8 := by simpa using shown
  obtain ⟨zero', empty⟩ : f'.frame.changeId = 0 ∧ f'.frame.format = .empty := by simpa using shown'
  refine ⟨f, f', _, Prod.ext given rfl, cached, given', cached', zero.trans zero'.symm, ?_⟩
  rintro ⟨format, -⟩
  rw [drawn, empty] at format
  exact absurd format nofun

end Subtitles
