/-
# Proofs.Stream.Chained: one render ahead after the other

The worker renders the queue in order, so while nothing else is rendered the render call before a
job is that of its predecessor. Then the entry repeats the predecessor, or gets a frame whose number
tells it from all others. `Chained` says so of everything that is rendered in the queue, as far as
no render on demand came between (`Unbroken`).

It is kept where the worker renders nothing, whatever leaves the front of the queue
(`Chained.later`), and by the worker's own renders (`Chained.extend`).
-/
import Subtitles.Proofs.Stream.Silent
namespace Subtitles

set_option autoImplicit false

/-- `k` shows what `h` shows, or has a number that says that it does not. -/
def Cache.Repeats (c : Cache) (h k : Handle) : Prop :=
  c.frame? k = c.frame? h ∨ ∃ f, c.frame? k = some f ∧ f.changeId ≠ 0

theorem demandsBefore_congr {p q : Binary64} (same : p.Same q) (calls : List Call) :
    demandsBefore p calls = demandsBefore q calls := by
  have found : Call.isAheadFor p = Call.isAheadFor q := by
    funext c
    unfold Call.isAheadFor
    split
    · exact decide_eq_decide.2 ⟨fun first => first.trans same, fun second => second.trans same.symm⟩
    · rfl
  rw [demandsBefore, found, demandsBefore]

namespace Stream

variable {σ : Type} {s t : Stream σ} {done waiting : List Handle} {h : Handle}

/-- No frame was rendered on demand since the one for `h` was rendered ahead. Geometry and time are
such that render calls can be compared. -/
structure Unbroken (s : Stream σ) (h : Handle) : Prop where
  geometry : s.geometry.Same s.geometry
  alone : ∃ p, s.cache.pts? h = some p ∧ p.Same p ∧
    demandsBefore p s.backend.calls = demands s.backend.calls

structure Chained (s : Stream σ) (done waiting : List Handle) : Prop where
  upTo : s.cache.RenderedUpTo done waiting
  linked : done.Pairwise fun h k => s.Unbroken h → s.Unbroken k ∧ s.cache.Repeats h k
  latest : ∀ l p, done.getLast? = some l → s.Unbroken l → s.cache.pts? l = some p →
    s.backend.lastWas p s.geometry = true
  logged : ∀ h ∈ done, ∃ f ∈ frames s.backend.calls, s.cache.frame? h = some f

theorem chained_of_queue_nil (empty : s.cache.queue = []) : s.Chained [] [] where
  upTo := ⟨empty, fun _ member => absurd member List.not_mem_nil, fun _ member => absurd member List.not_mem_nil⟩
  linked := .nil
  latest := nofun
  logged := fun _ member => absurd member List.not_mem_nil

/-! ## Without a render of the worker -/

/-- From `s` to `t` the worker rendered nothing. -/
structure Later (s t : Stream σ) : Prop where
  geometry : t.geometry = s.geometry
  log : ∃ new, t.backend.calls = new ++ s.backend.calls ∧ ∀ c ∈ new, c.isAhead = false
  latest : demands t.backend.calls = demands s.backend.calls → t.backend.latest = s.backend.latest

theorem Silent.later (silent : Silent s t) : Later s t where
  geometry := silent.geometry
  log := by
    obtain ⟨new, log, none⟩ := silent.log
    exact ⟨new, log, fun c member => Call.isAhead_of_frame? (none c member)⟩
  latest _ := silent.latest

theorem Later.unbroken_iff (later : Later s t) (time : t.cache.pts? h = s.cache.pts? h) :
    t.Unbroken h ↔ s.Unbroken h ∧ demands t.backend.calls = demands s.backend.calls := by
  obtain ⟨new, log, other⟩ := later.log
  have passed : ∀ p, demandsBefore p t.backend.calls = demandsBefore p s.backend.calls := by
    intro p
    rw [log]
    exact demandsBefore_append (fun c member => Call.isAheadFor_of_isAhead (other c member) p) _
  have grown : demands s.backend.calls ≤ demands t.backend.calls := by
    rw [log, demands_append]
    exact Nat.le_add_left _ _
  constructor
  · rintro ⟨self, p, timed, normal, equal⟩
    have below := demandsBefore_le p s.backend.calls
    rw [passed] at equal
    exact ⟨⟨later.geometry ▸ self, p, time.symm.trans timed, normal, by omega⟩, by omega⟩
  · rintro ⟨⟨self, p, timed, normal, equal⟩, same⟩
    refine ⟨?_, p, time.trans timed, normal, ?_⟩
    · rw [later.geometry]
      exact self
    · rw [passed, equal, same]

/-- What is left of the queue stays chained. -/
theorem Chained.later {done' waiting' : List Handle} (chained : s.Chained done waiting) (later : Later s t)
    (upTo : t.cache.RenderedUpTo done' waiting') (left : done' <:+ done)
    (same : ∀ h ∈ done', t.cache.pts? h = s.cache.pts? h ∧ t.cache.frame? h = s.cache.frame? h) :
    t.Chained done' waiting' := by
  refine ⟨upTo, ?_, ?_, ?_⟩
  · refine (chained.linked.sublist left.sublist).imp_of_mem ?_
    intro h k memberH memberK link unbrokenT
    obtain ⟨unbroken, none⟩ := (later.unbroken_iff (same h memberH).1).1 unbrokenT
    obtain ⟨unbrokenK, repeats⟩ := link unbroken
    refine ⟨(later.unbroken_iff (same k memberK).1).2 ⟨unbrokenK, none⟩, ?_⟩
    unfold Cache.Repeats
    rw [(same h memberH).2, (same k memberK).2]
    exact repeats
  · intro l p last unbrokenT time
    have member := List.mem_of_getLast? last
    obtain ⟨unbroken, none⟩ := (later.unbroken_iff (same l member).1).1 unbrokenT
    have lastBefore : done.getLast? = some l := by
      obtain ⟨dropped, parts⟩ := left
      rw [← parts, List.getLast?_append, last]
      rfl
    have was := chained.latest l p lastBefore unbroken ((same l member).1.symm.trans time)
    unfold LoggedBackend.lastWas at was ⊢
    rw [later.latest none, later.geometry]
    exact was
  · intro h member
    obtain ⟨new, log, -⟩ := later.log
    obtain ⟨f, drawn, showing⟩ := chained.logged h (left.subset member)
    refine ⟨f, ?_, (same h member).2.trans showing⟩
    rw [log, frames, List.filterMap_append]
    exact List.mem_append_right _ drawn

theorem Chained.silent (chained : s.Chained done waiting) (silent : Silent s t) :
    ∃ waiting', t.Chained done waiting' := by
  obtain ⟨waiting', upTo, same⟩ := silent.cache done waiting chained.upTo
  exact ⟨waiting', chained.later silent.later upTo (List.suffix_refl _) same⟩

/-- Entries are dropped from the front of the queue. -/
theorem Chained.drop {b : Cache} (chained : s.Chained done waiting) (carries : Cache.Carries none s.cache b)
    (suffix : b.queue <:+ s.cache.queue) (current : Option Handle) :
    ∃ done' waiting', { s with cache := b, current }.Chained done' waiting' := by
  obtain ⟨done', waiting', upTo, left, -⟩ := chained.upTo.of_suffix carries suffix
  refine ⟨done', waiting', chained.later ⟨rfl, ⟨[], rfl, nofun⟩, fun _ => rfl⟩ upTo left ?_⟩
  intro h member
  have queued : h ∈ b.queue := upTo.queue ▸ List.mem_append_left _ member
  exact ⟨carries.pts h queued, carries.frame h queued nofun⟩

variable [Backend σ] {fresh : σ} {since : List Call}

/-! ## Acquires -/

theorem later_renderOnDemand (g : Geometry) (pts : Binary64) (s : Stream σ) :
    Later s (s.renderOnDemand g pts).2 ∧ (s.renderOnDemand g pts).2.cache = s.cache := by
  unfold renderOnDemand
  split
  · exact ⟨⟨rfl, ⟨[], rfl, nofun⟩, fun _ => rfl⟩, rfl⟩
  · obtain ⟨frame, -, rendered⟩ | ⟨fault, -, rendered⟩ := s.backend.render_cases .demand g pts
    · rw [rendered]
      refine ⟨⟨rfl, ⟨[.render .demand pts g frame], rfl, ?_⟩, ?_⟩, rfl⟩
      · intro c member
        rw [List.mem_singleton.1 member]
        rfl
      · intro none
        have more : demands (.render .demand pts g frame :: s.backend.calls) = demands s.backend.calls + 1 :=
          List.countP_cons_of_pos rfl
        exact absurd (more.symm.trans none) (Nat.succ_ne_self _)
    · rw [rendered]
      exact ⟨⟨rfl, ⟨[], rfl, nofun⟩, fun _ => rfl⟩, rfl⟩

/-- An acquire drops what is before its time, and everything where it changes the geometry. -/
theorem Chained.acquire (chained : s.Chained done waiting) (faithful : s.Faithful fresh since) (g : Geometry)
    (pts : Binary64) :
    (∃ done' waiting', (s.acquire g pts).2.Chained done' waiting') ∧
      s.backend.calls <:+ (s.acquire g pts).2.backend.calls := by
  have onDemand : ∀ (r : Stream σ) (done waiting : List Handle), r.Chained done waiting →
      (r.renderOnDemand g pts).2.Chained done waiting ∧
        r.backend.calls <:+ (r.renderOnDemand g pts).2.backend.calls := by
    intro r done waiting chained
    obtain ⟨later, cache⟩ := later_renderOnDemand g pts r
    obtain ⟨new, log, -⟩ := later.log
    refine ⟨chained.later later (cache ▸ chained.upTo) (List.suffix_refl _) ?_, new, log.symm⟩
    intro h _
    rw [cache]
    exact ⟨rfl, rfl⟩
  unfold Stream.acquire
  obtain ⟨same, adopted⟩ | ⟨-, b, adopted, empty, faithful'⟩ := faithful.adopt g
  · have out := faithful.takenOut g same.isVoid_eq pts
    rw [lookUp_eq faithful.threaded adopted pts]
    generalize s.takeOut g pts = result at out
    cases out with
    | refused busy => exact ⟨⟨done, waiting, chained⟩, List.suffix_refl _⟩
    | miss free _ carries apart suffix =>
        obtain ⟨done', waiting', dropped⟩ := chained.drop carries suffix s.current
        obtain ⟨chained', grown⟩ := onDemand _ done' waiting' dropped
        exact ⟨⟨done', waiting', chained'⟩, grown⟩
    | hit free _ carries queued time samePts rendered showing suffix =>
        exact ⟨chained.drop carries suffix _, List.suffix_refl _⟩
    | waiting visible _ carries queued pending suffix =>
        exact ⟨chained.drop carries suffix _, List.suffix_refl _⟩
  · have out := faithful'.takenOut g rfl pts
    rw [lookUp_eq faithful.threaded adopted pts]
    generalize takeOut g pts _ = result at out
    cases out with
    | refused busy => exact ⟨⟨[], [], chained_of_queue_nil empty⟩, List.suffix_refl _⟩
    | @miss d free _ carries apart suffix =>
        have none : d.queue = [] := List.eq_nil_iff_forall_not_mem.2 (carries.not_mem empty)
        obtain ⟨chained', grown⟩ := onDemand { s with geometry := g, cache := d } [] [] (chained_of_queue_nil none)
        exact ⟨⟨[], [], chained'⟩, grown⟩
    | hit free _ carries queued time samePts rendered showing suffix =>
        exact absurd queued (carries.not_mem empty _)
    | waiting visible _ carries queued pending suffix => exact absurd queued (carries.not_mem empty _)

/-- A cached frame is shown by what was rendered of the queue, and now by the first of it. -/
theorem Chained.hit {g : Geometry} {pts : Binary64} {f : HeldFrame} (chained : s.Chained done waiting)
    (faithful : s.Faithful fresh since) (answer : s.acquire g pts = (.frame f, t)) (cached : f.isCached = true) :
    s.geometry.Same g ∧ t.geometry = s.geometry ∧ t.backend = s.backend ∧
      ∃ h p done' waiting', t.Chained (h :: done') waiting' ∧ t.cache.pts? h = some p ∧ p.Same pts ∧
        t.cache.frame? h = some f.frame ∧ h ∈ done ∧ s.cache.frame? h = some f.frame := by
  obtain ⟨same, b, h, p, rfl, carries, suffix, front, time, samePts, rendered, showing⟩ :=
    faithful.acquire_hit answer cached
  have queued : h ∈ b.queue := List.mem_of_head? front
  have shown : s.cache.frame? h = some f.frame := (carries.frame h queued nofun).symm.trans showing
  have inDone : h ∈ done := by
    have there := carries.queued h queued
    rw [chained.upTo.queue] at there
    refine (List.mem_append.1 there).resolve_right fun waits => ?_
    have pending := chained.upTo.waiting h waits
    rw [← carries.rendered h queued nofun, rendered] at pending
    exact absurd pending nofun
  obtain ⟨done', waiting', chained'⟩ := chained.drop carries suffix (some h)
  have parts : b.queue = done' ++ waiting' := chained'.upTo.queue
  rw [parts] at front
  refine ⟨same, rfl, rfl, h, p, ?_⟩
  cases done' with
  | nil =>
      have pending := chained'.upTo.waiting h (List.mem_of_head? front)
      exact absurd (rendered.symm.trans pending) nofun
  | cons k rest =>
      obtain rfl : k = h := Option.some.inj front
      exact ⟨rest, waiting', chained', time, samePts, showing, inDone, shown⟩

/-! ## The worker -/

/-- The worker renders the first entry that waits. It repeats the one before it, or shows the frame;
then the number of that is not 0 where the render call before was for the one before it. -/
structure Renders (done rest : List Handle) (entry : Handle) (pts : Binary64) (frame : Frame)
    (s t : Stream σ) : Prop where
  geometry : t.geometry = s.geometry
  answer : (s.backend.render .ahead s.geometry pts).1 = .ok frame
  log : t.backend.calls = .render .ahead pts s.geometry frame :: s.backend.calls
  latest : t.backend.latest = some ⟨pts, s.geometry⟩
  upTo : t.cache.RenderedUpTo (done ++ [entry]) rest
  time : t.cache.pts? entry = some pts
  earlier : ∀ h ∈ done, ∃ p, s.cache.pts? h = some p ∧ p < pts
  same : ∀ h ∈ done, t.cache.pts? h = s.cache.pts? h ∧ t.cache.frame? h = s.cache.frame? h
  shown : (∃ l, done.getLast? = some l ∧ t.cache.frame? entry = s.cache.frame? l) ∨
    (t.cache.frame? entry = some frame ∧ (frame.changeId = 0 → ∀ l p, done.getLast? = some l →
      s.cache.pts? l = some p → s.backend.lastWas p s.geometry = false))

omit [Backend σ] in
/-- A job shares with its predecessor, or shows its frame. -/
theorem shown_cases {job : Job} {frame : Frame} {shown : Option Frame}
    (becomes : shown = job.shown s.cache (s.follows job && frame.isUnchanged) frame) :
    (∃ l, job.predecessor = some l ∧ shown = s.cache.frame? l) ∨
      (shown = some frame ∧ (frame.changeId = 0 → ∀ l p, job.predecessor = some l →
        s.cache.pts? l = some p → s.backend.lastWas p s.geometry = false)) := by
  unfold Job.shown at becomes
  split at becomes
  · next l before shares => exact .inl ⟨l, before, becomes⟩
  · next notShared =>
      refine .inr ⟨becomes, ?_⟩
      intro unchanged l p before time
      have apart : (s.follows job && frame.isUnchanged) ≠ true := notShared l before
      simpa [follows, before, time, Frame.isUnchanged, unchanged] using apart

theorem silent_decodePending (s : Stream σ) : Silent s s.decodePending := by
  unfold decodePending
  rw [LoggedBackend.foldl_decode]
  refine ⟨rfl, rfl, ⟨_, rfl, ?_⟩, .refl _⟩
  intro c member
  obtain ⟨p, -, rfl⟩ := List.mem_map.1 (List.mem_reverse.1 member)
  rfl

/-- A round of the worker renders the first entry that waits, or nothing. -/
theorem Round.cases {lost : List Handle} (con : s.cache.Consistent lost)
    (upTo : s.cache.RenderedUpTo done waiting) (round : Round s t) :
    Silent s t ∨ ∃ entry rest pts frame, Renders done rest entry pts frame s t := by
  cases round with
  | decode running waits => exact .inl (silent_decodePending s)
  | @render job pts running decoded next =>
      obtain ⟨-, first, time⟩ := nextJob_spec next
      obtain ⟨rest, waits, isLast⟩ := upTo.of_firstPending con first
      obtain ⟨frame, d, answer, became, -, queue, carries, rendered, shown⟩ |
        ⟨f, b, answer, became, -, queue, carries⟩ := carryOut_cases con first pts
      · have queued : ∀ h ∈ s.cache.queue, h ∈ d.queue := fun h member => queue ▸ member
        have here : job.entry ∈ s.cache.queue := by
          rw [upTo.queue, waits]
          exact List.mem_append_right _ List.mem_cons_self
        have there : ∀ h ∈ done, h ∈ s.cache.queue := by
          intro h member
          rw [upTo.queue]
          exact List.mem_append_left _ member
        have earlier : ∀ h ∈ done, ∃ p, s.cache.pts? h = some p ∧ p < pts := by
          intro h member
          have sorted := con.sorted
          rw [upTo.queue, waits, List.pairwise_append] at sorted
          obtain ⟨p, q, timeH, timeEntry, before⟩ := sorted.2.2 h member job.entry List.mem_cons_self
          rw [time] at timeEntry
          exact ⟨p, timeH, Option.some.inj timeEntry ▸ before⟩
        have other : ∀ h ∈ done, some job.entry ≠ some h := by
          intro h member same
          obtain ⟨p, timeH, before⟩ := earlier h member
          rw [← Option.some.inj same, time] at timeH
          exact Binary64.lt_irrefl _ (Option.some.inj timeH ▸ before)
        rw [became, LoggedBackend.render_of_ok answer]
        refine .inr ⟨job.entry, rest, pts, frame, rfl, congrArg Prod.fst answer, rfl, rfl, ?_, ?_, earlier, ?_, ?_⟩
        · exact upTo.advance con carries queue waits rendered
        · exact (carries.pts _ (queued _ here)).trans time
        · intro h member
          have inQueue := queued h (there h member)
          exact ⟨carries.pts h inQueue, carries.frame h inQueue (other h member)⟩
        · have cases := shown_cases shown
          rwa [isLast] at cases
      · rw [became, LoggedBackend.render_of_error answer]
        exact .inl ⟨rfl, rfl, ⟨[], rfl, nofun⟩, carries.keepsDone queue⟩

section Renders

variable {rest : List Handle} {entry : Handle} {pts : Binary64} {frame : Frame}
  (renders : Renders done rest entry pts frame s t)
include renders

theorem Renders.calls : s.backend.calls <:+ t.backend.calls := ⟨[_], renders.log.symm⟩

theorem Renders.demands : demands t.backend.calls = demands s.backend.calls := by
  rw [renders.log]
  exact List.countP_cons_of_neg nofun

theorem Renders.unbroken_iff (member : h ∈ done) : t.Unbroken h ↔ s.Unbroken h := by
  obtain ⟨p, time, before⟩ := renders.earlier h member
  have passed : demandsBefore p t.backend.calls = demandsBefore p s.backend.calls := by
    have other : Call.isAheadFor p (.render .ahead pts s.geometry frame) = false :=
      decide_eq_false fun same => Binary64.not_lt_of_same same.symm before
    have only : ∀ c ∈ [Call.render .ahead pts s.geometry frame], c.isAheadFor p = false := by
      intro c member
      rw [List.mem_singleton.1 member, other]
    rw [renders.log]
    exact demandsBefore_append only _
  have timeT := (renders.same h member).1.trans time
  constructor
  · rintro ⟨self, q, timed, normal, equal⟩
    obtain rfl := Option.some.inj (timeT.symm.trans timed)
    rw [passed, renders.demands] at equal
    exact ⟨renders.geometry ▸ self, _, time, normal, equal⟩
  · rintro ⟨self, q, timed, normal, equal⟩
    obtain rfl := Option.some.inj (time.symm.trans timed)
    refine ⟨?_, _, timeT, normal, ?_⟩
    · rw [renders.geometry]
      exact self
    · rw [passed, renders.demands, equal]

theorem Renders.unbroken_entry (self : s.geometry.Same s.geometry) (normal : pts.Same pts) :
    t.Unbroken entry := by
  refine ⟨?_, pts, renders.time, normal, ?_⟩
  · rw [renders.geometry]
    exact self
  · rw [renders.demands, renders.log]
    exact demandsBefore_ahead normal _ _ _

/-- Behind an entry from which the chain is unbroken, a frame with the number 0 is not kept: its entry
repeats the last one. -/
theorem Renders.repeats {l : Handle} (chained : s.Chained done waiting) (last : done.getLast? = some l)
    (unbroken : s.Unbroken l) :
    t.cache.frame? entry = s.cache.frame? l ∨ (t.cache.frame? entry = some frame ∧ frame.changeId ≠ 0) := by
  obtain ⟨k, last', shared⟩ | ⟨own, told⟩ := renders.shown
  · obtain rfl := Option.some.inj (last.symm.trans last')
    exact .inl shared
  · refine .inr ⟨own, fun unchanged => ?_⟩
    obtain ⟨p, time, -⟩ := unbroken.alone
    have was := chained.latest l p last unbroken time
    exact absurd (was.symm.trans (told unchanged l p last time)) nofun

theorem Chained.extend (chained : s.Chained done waiting) : t.Chained (done ++ [entry]) rest := by
  refine ⟨renders.upTo, List.pairwise_append.2 ⟨?_, List.pairwise_singleton _ _, ?_⟩, ?_, ?_⟩
  · refine chained.linked.imp_of_mem ?_
    intro h k memberH memberK link unbroken
    obtain ⟨unbrokenK, repeats⟩ := link ((renders.unbroken_iff memberH).1 unbroken)
    refine ⟨(renders.unbroken_iff memberK).2 unbrokenK, ?_⟩
    unfold Cache.Repeats
    rw [(renders.same h memberH).2, (renders.same k memberK).2]
    exact repeats
  · intro h member k atEnd unbrokenT
    rw [List.mem_singleton.1 atEnd]
    have unbroken := (renders.unbroken_iff member).1 unbrokenT
    obtain ⟨p, -, before⟩ := renders.earlier h member
    refine ⟨renders.unbroken_entry unbroken.geometry (Binary64.same_self_iff.2 before.1.2), ?_⟩
    -- The last entry is `h`, or one that repeats it.
    obtain ⟨front, l, rfl⟩ : ∃ front l, done = front ++ [l] :=
      ⟨_, _, (List.dropLast_concat_getLast (List.ne_nil_of_mem member)).symm⟩
    have last : (front ++ [l]).getLast? = some l := List.getLast?_concat
    obtain ⟨unbrokenL, repeatsL⟩ : s.Unbroken l ∧ (s.cache.frame? l = s.cache.frame? h ∨
        ∃ f, s.cache.frame? l = some f ∧ f.changeId ≠ 0) := by
      rcases List.mem_append.1 member with inFront | atLast
      · exact (List.pairwise_append.1 chained.linked).2.2 h inFront l (List.mem_singleton_self l) unbroken
      · rw [← List.mem_singleton.1 atLast]
        exact ⟨unbroken, .inl rfl⟩
    unfold Cache.Repeats
    rw [(renders.same h member).2]
    obtain shared | ⟨own, number⟩ := renders.repeats chained last unbrokenL
    · rw [shared]
      exact repeatsL
    · exact .inr ⟨frame, own, number⟩
  · intro l p last unbroken time
    obtain rfl : entry = l := by simpa using last
    obtain ⟨q, timed, normal, -⟩ := unbroken.alone
    obtain rfl := Option.some.inj (renders.time.symm.trans time)
    obtain rfl := Option.some.inj (renders.time.symm.trans timed)
    have self := unbroken.geometry
    rw [renders.geometry] at self ⊢
    simp [LoggedBackend.lastWas, renders.latest, RenderCall.Same, normal, self]
  · intro h member
    have old : ∀ k ∈ done, ∃ f ∈ frames t.backend.calls, s.cache.frame? k = some f := by
      intro k member
      obtain ⟨f, drawn, showing⟩ := chained.logged k member
      exact ⟨f, (renders.calls.filterMap _).subset drawn, showing⟩
    rcases List.mem_append.1 member with inDone | atEnd
    · rw [(renders.same h inDone).2]
      exact old h inDone
    · rw [List.mem_singleton.1 atEnd]
      obtain ⟨l, last, shared⟩ | ⟨own, -⟩ := renders.shown
      · rw [shared]
        exact old l (List.mem_of_getLast? last)
      · refine ⟨frame, ?_, own⟩
        rw [renders.log]
        exact List.mem_cons_self

end Renders

theorem Chained.round {lost : List Handle} (chained : s.Chained done waiting) (con : s.cache.Consistent lost)
    (round : Round s t) : ∃ done' waiting', t.Chained done' waiting' := by
  obtain silent | ⟨entry, rest, pts, frame, renders⟩ := round.cases con chained.upTo
  · obtain ⟨waiting', chained'⟩ := chained.silent silent
    exact ⟨done, waiting', chained'⟩
  · exact ⟨_, rest, chained.extend renders⟩

end Stream
end Subtitles
