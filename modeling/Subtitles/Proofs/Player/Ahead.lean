/-
# Proofs.Player.Ahead: a player that renders ahead

Before a frame is shown the time of a later one is asked for, so the worker has its frames queued in the order
they are shown in (`InLane`). The first frames come before any that was asked for in time, and are rendered as
they are shown. Meanwhile the worker renders ahead, and its frames do not follow one another: the backend was
used in between. A number 0 may be wrong then. Once the frames shown come from the lane the backend is the
worker's alone, and each of its renders follows the one for the frame before (`Ready.link`). The frames that
were queued before that are shown up to the frame `startUp`, and after it every number tells (`upholds_ahead`).
-/
import Subtitles.Proofs.Player.OnDemand
import Subtitles.Proofs.Player.Schedule
import Subtitles.Proofs.Stream.Lined
import Subtitles.Proofs.Stream.Staffed
namespace Subtitles

set_option autoImplicit false

variable {settings : PlaySettings} {script : Script} {fresh : AnyBackend} {us : List Use} {s t : Stream AnyBackend}
  {before : List Frame} {hi : Nat} {passed : Option (Binary64 × Frame)} {rest : List (Binary64 × Frame)}
  {waiting : List Binary64} {f : HeldFrame} {out back : Stream AnyBackend}

namespace PlaySettings

/-- The last frame that is asked for before the first one is shown that was rendered ahead. -/
def startUp (settings : PlaySettings) : Nat := 2 * settings.renderAhead.toNat + 1

/-- The first frame that is queued when so many were shown: the last one shown, if it was rendered ahead. -/
def firstKept (settings : PlaySettings) (shown : Nat) : Nat := max (settings.renderAhead.toNat + 1) (shown - 1)

variable {shown : Nat}

theorem firstKept_succ_of_le (early : shown ≤ settings.renderAhead.toNat + 1) :
    settings.firstKept (shown + 1) = settings.firstKept shown := by
  unfold firstKept
  omega

theorem firstKept_succ_of_lt (late : settings.renderAhead.toNat + 1 < shown) :
    settings.firstKept (shown + 1) = shown ∧ settings.firstKept shown + 1 = shown := by
  unfold firstKept
  omega

theorem geometry_same (settings : PlaySettings) : settings.geometry.Same settings.geometry := by
  have margins : Margins.Same {} {} := by decide
  have square : Binary64.one.Same .one := by decide
  exact ⟨rfl, rfl, margins, square⟩

end PlaySettings

namespace Player

/-- Frames of this size are rendered ahead, at this rate, by a backend whose numbers grow. -/
structure RendersAhead (settings : PlaySettings) (fresh : AnyBackend) : Prop where
  rate : settings.hasRate = true
  visible : settings.geometry.isVoid = false
  some : 0 < settings.renderAhead.toNat
  few : settings.renderAhead.toNat ≤ Options.mostAhead
  builtin : fresh ∈ AnyBackend.builtin

/-- These frames were shown, and the times of those before `hi` were asked for. What is queued of them is a lane
behind the frame shown last, if that is from the lane. -/
structure InLane (settings : PlaySettings) (fresh : AnyBackend) (before : List Frame) (hi : Nat)
    (passed : Option (Binary64 × Frame)) (rest : List (Binary64 × Frame)) (waiting : List Binary64)
    (s : Stream AnyBackend) : Prop where
  staffed : s.Staffed (settings.renderAhead.toNat + Options.spareEntries)
  geometry : s.geometry = settings.geometry
  lined : s.Lined fresh (settings.ptsOf settings.startUp) before passed rest waiting
  window : Window settings (settings.firstKept before.length) hi s.cache.times
  early : passed = none → before.length ≤ settings.renderAhead.toNat + 1
  shown : ∀ x, passed = some x → x.1 = settings.ptsOf (before.length - 1)

/-- The worker waits for what is asked for next, and the latest render was that of what was asked for last, once
the frames shown are from the lane. -/
structure Ready (settings : PlaySettings) (fresh : AnyBackend) (before : List Frame) (hi : Nat)
    (passed : Option (Binary64 × Frame)) (rest : List (Binary64 × Frame)) (waiting : List Binary64)
    (s : Stream AnyBackend) : Prop extends InLane settings fresh before hi passed rest waiting s where
  rested : s.worker = .running → s.Idle
  link : hi ≤ settings.startUp ∨ (s.worker = .running →
    s.backend.lastWas (settings.ptsOf (hi - 1)) settings.geometry = true ∨
      ∀ j, ¬ settings.ptsOf (hi - 1) < settings.ptsOf j)

variable (setting : RendersAhead settings fresh)
include setting

/-! ## Asking ahead -/

/-- The time of the next frame to ask for is queued behind the others, if it is later. -/
theorem InLane.request (placed : InLane settings fresh before hi passed rest waiting s) (begun : 0 < before.length)
    (next : hi = before.length + settings.renderAhead.toNat) :
    ∃ r waiting', s.prepare (settings.ptsOf hi) = (true, r) ∧ r.backend = s.backend ∧ r.worker = s.worker ∧
      InLane settings fresh before (hi + 1) passed rest waiting' r ∧
      (((∀ p ∈ s.cache.times, p < settings.ptsOf hi) ∧ waiting' = waiting ++ [settings.ptsOf hi]) ∨
        ((∃ p ∈ s.cache.times, ¬ p < settings.ptsOf hi) ∧ waiting' = waiting)) := by
  obtain ⟨r, prepared, staffed, cache, backend, worker, geometry⟩ := placed.staffed.prepare (settings.ptsOf hi)
  obtain ⟨lost, con⟩ := placed.staffed.cache
  have times := placed.lined.lane.times
  have low : settings.firstKept before.length ≤ hi := by
    have ahead := setting.some
    unfold PlaySettings.firstKept
    omega
  have room : s.cache.times.length < s.cache.capacity := by
    have bound := placed.window.length_le
    rw [placed.staffed.capacity]
    unfold PlaySettings.firstKept at bound
    unfold Options.spareEntries
    omega
  have lined : ∀ {waiting'}, r.cache.Lane (passed.toList ++ rest) waiting' →
      r.Lined fresh (settings.ptsOf settings.startUp) before passed rest waiting' := by
    intro waiting' lane
    have lined := placed.lined
    exact ⟨lane, lined.told, lined.latest, backend ▸ lined.drawn⟩
  obtain ⟨later, lane⟩ | ⟨notLater, lane⟩ := placed.lined.lane.request_cases con room (settings.ptsOf hi)
  · rw [← cache] at lane
    refine ⟨r, _, prepared, backend, worker, ⟨staffed, geometry.trans placed.geometry, lined lane, ?_, placed.early,
      placed.shown⟩, .inl ⟨later, rfl⟩⟩
    refine placed.window.request setting.rate low (.inl ⟨later, ?_⟩)
    rw [lane.times, times, List.append_assoc]
  · rw [← cache] at lane
    refine ⟨r, _, prepared, backend, worker, ⟨staffed, geometry.trans placed.geometry, lined lane, ?_, placed.early,
      placed.shown⟩, .inr ⟨notLater, rfl⟩⟩
    refine placed.window.request setting.rate low (.inr ⟨notLater, ?_⟩)
    rw [lane.times, times]

/-- The worker renders the one time that waits, if any does and the worker goes on. -/
theorem InLane.settle (placed : InLane settings fresh before hi passed rest waiting s)
    (few : ∀ p ∈ waiting, waiting = [p] ∧ (p ≤ settings.ptsOf settings.startUp ∨
      ∃ x, (passed.toList ++ rest).getLast? = some x ∧ s.backend.lastWas x.1 s.geometry = true)) :
    (InLane settings fresh before hi passed rest waiting s.settle ∧ s.settle.backend.latest = s.backend.latest) ∨
      ∃ p shown, waiting = [p] ∧ InLane settings fresh before hi passed (rest ++ [(p, shown)]) [] s.settle ∧
        s.settle.backend.latest = some ⟨p, settings.geometry⟩ := by
  obtain ⟨staffed, times⟩ := placed.staffed.settle
  obtain ⟨lost, con⟩ := placed.staffed.cache
  have grow := AnyBackend.numbersGrow_of_builtin setting.builtin
  have geometry : s.settle.geometry = settings.geometry := by
    rw [s.settle_frame]
    exact placed.geometry
  have window := times ▸ placed.window
  obtain ⟨lined, latest⟩ | ⟨p, shown, alone, lined, latest⟩ := placed.lined.settle grow con few
  · exact .inl ⟨⟨staffed, geometry, lined, window, placed.early, placed.shown⟩, latest⟩
  · refine .inr ⟨p, shown, alone, ⟨staffed, geometry, lined, window, placed.early, placed.shown⟩, ?_⟩
    rw [latest, placed.geometry]

/-- A later time than those queued is rendered right behind the one before, or is among the first. -/
theorem Ready.follows (ready : Ready settings fresh before hi passed rest [] s) (running : s.worker = .running)
    (next : hi = before.length + settings.renderAhead.toNat) (later : ∀ p ∈ s.cache.times, p < settings.ptsOf hi) :
    settings.ptsOf hi ≤ settings.ptsOf settings.startUp ∨
      ∃ x, (passed.toList ++ rest).getLast? = some x ∧ s.backend.lastWas x.1 s.geometry = true := by
  by_cases start : hi ≤ settings.startUp
  · exact .inl (PlaySettings.ptsOf_le setting.rate start)
  · have ahead := setting.some
    have some : settings.firstKept before.length < hi := by
      unfold PlaySettings.firstKept
      unfold PlaySettings.startUp at start
      omega
    have last := ready.window.getLast?_eq setting.rate some
    have times := ready.lined.lane.times
    rw [List.append_nil] at times
    rcases ready.link.resolve_left start running with was | never
    · rw [times, List.getLast?_map] at last
      obtain ⟨x, isLast, time⟩ := Option.map_eq_some_iff.1 last
      exact .inr ⟨x, isLast, by rw [time, ready.geometry]; exact was⟩
    · exact absurd (later _ (List.mem_of_getLast? last)) (never hi)

/-- Where a time is not later than those queued, it is linked to the latest render as the last of those is. -/
theorem Ready.link_of_not_later (ready : Ready settings fresh before hi passed rest waiting s)
    (running : s.worker = .running) (refused : ∃ p ∈ s.cache.times, ¬ p < settings.ptsOf hi)
    (late : settings.startUp ≤ hi) :
    s.backend.lastWas (settings.ptsOf hi) settings.geometry = true ∨ ∀ j, ¬ settings.ptsOf hi < settings.ptsOf j := by
  have same := ready.window.eq_of_not_later setting.rate refused
  rw [← same]
  obtain start | link := ready.link
  · obtain rfl : hi = settings.startUp := Nat.le_antisymm start late
    have some := setting.some
    have few := setting.few
    unfold Options.mostAhead at few
    unfold PlaySettings.startUp at same ⊢
    refine .inr ((PlaySettings.ptsOf_lt setting.rate (by omega) (by omega)).resolve_left ?_)
    rw [Nat.add_sub_cancel] at same ⊢
    rw [same]
    exact Binary64.lt_irrefl _
  · exact link running

/-- At most the time just asked for waits, and it is the one after the latest render or among the first. -/
theorem Ready.due (ready : Ready settings fresh before hi passed rest [] s) (running : s.worker = .running)
    (next : hi = before.length + settings.renderAhead.toNat)
    (outcome : ((∀ p ∈ s.cache.times, p < settings.ptsOf hi) ∧ waiting = [] ++ [settings.ptsOf hi]) ∨
      ((∃ p ∈ s.cache.times, ¬ p < settings.ptsOf hi) ∧ waiting = [])) :
    ∀ p ∈ waiting, waiting = [p] ∧ (p ≤ settings.ptsOf settings.startUp ∨
      ∃ x, (passed.toList ++ rest).getLast? = some x ∧ s.backend.lastWas x.1 s.geometry = true) := by
  intro p member
  obtain ⟨later, rfl⟩ | ⟨-, rfl⟩ := outcome
  · obtain rfl := List.mem_singleton.1 member
    exact ⟨rfl, ready.follows setting running next later⟩
  · cases member

/-- A frame is asked for ahead, and the worker renders it right behind the one before. -/
theorem Ready.read (ready : Ready settings fresh before hi passed rest waiting s) (begun : 0 < before.length)
    (next : hi = before.length + settings.renderAhead.toNat) :
    ∃ rest waiting, Ready settings fresh before (hi + 1) passed rest waiting (readFor settings hi s) := by
  obtain ⟨r, waiting', prepared, backend, worker, placed, outcome⟩ := ready.request setting begun next
  obtain ⟨lost, con⟩ := placed.staffed.cache
  have read : readFor settings hi s = r.settle := by
    rw [readFor, prepared]
  rw [read]
  by_cases running : s.worker = .running
  · have visible : s.geometry.isVoid = false := ready.geometry ▸ setting.visible
    obtain ⟨lost', con'⟩ := ready.staffed.cache
    obtain rfl : waiting = [] := ready.lined.lane.waiting_eq_nil con' ((ready.rested running).rendered visible)
    have rested : r.settle.worker = .running → r.settle.Idle := Stream.settle_idle con
    have few := ready.due setting running next outcome
    rw [← backend, ready.geometry, ← placed.geometry] at few
    obtain ⟨placed', latest⟩ | ⟨p, shown, alone, placed', latest⟩ := placed.settle setting few
    · refine ⟨rest, waiting', placed', rested, ?_⟩
      by_cases start : hi + 1 ≤ settings.startUp
      · exact .inl start
      · refine .inr fun running' => ?_
        obtain ⟨lost'', con''⟩ := placed'.staffed.cache
        have visible' : r.settle.geometry.isVoid = false := placed'.geometry ▸ setting.visible
        have nothing := placed'.lined.lane.waiting_eq_nil con'' ((rested running').rendered visible')
        obtain ⟨-, rfl⟩ | ⟨refused, -⟩ := outcome
        · cases nothing
        · rw [Nat.add_sub_cancel, LoggedBackend.lastWas, latest, backend]
          exact ready.link_of_not_later setting running refused (by omega)
    · obtain ⟨-, rfl⟩ | ⟨-, rfl⟩ := outcome
      · obtain rfl := List.singleton_inj.1 alone
        refine ⟨_, [], placed', rested, .inr fun _ => .inl ?_⟩
        rw [Nat.add_sub_cancel, LoggedBackend.lastWas, latest]
        exact decide_eq_true ⟨PlaySettings.ptsOf_same setting.rate hi, settings.geometry_same⟩
      · cases alone
  · have stopped : r.worker ≠ .running := worker ▸ running
    rw [Stream.settle_of_not_running stopped]
    exact ⟨rest, waiting', placed, fun goesOn => absurd goesOn stopped, .inr fun goesOn => absurd goesOn stopped⟩

/-! ## Showing -/

omit setting

/-- What a look-up for the next frame leaves of the lane. -/
inductive Left (settings : PlaySettings) (shown : Nat) (rest : List (Binary64 × Frame)) :
    Option (Binary64 × Frame) → List (Binary64 × Frame) → Prop
  /-- Nothing of it was shown yet. -/
  | all : Left settings shown rest none rest
  /-- The frame shown last is left behind. -/
  | next {x : Binary64 × Frame} (later : settings.ptsOf (shown - 1) < settings.ptsOf shown) :
    Left settings shown rest (some x) rest
  /-- It stays, for the next one has the same time. -/
  | same {x : Binary64 × Frame} : Left settings shown rest (some x) (x :: rest)

variable {late : List (Binary64 × Frame)}

include setting

/-- The frame shown last is the first one kept. -/
theorem InLane.first (placed : InLane settings fresh before hi passed rest waiting s) {x : Binary64 × Frame}
    (same : passed = some x) : settings.firstKept before.length < hi ∧
      settings.ptsOf (before.length - 1) = settings.ptsOf (settings.firstKept before.length) := by
  have window := placed.window
  rw [placed.lined.lane.times, same] at window
  obtain ⟨j, low, high, -⟩ := window.only x.1 List.mem_cons_self
  have some := Nat.lt_of_le_of_lt low high
  exact ⟨some, (placed.shown x same).symm.trans (Option.some.inj (window.head?_eq setting.rate some))⟩

theorem InLane.lookUp (placed : InLane settings fresh before hi passed rest waiting s) {b : Cache} {hit : Option Handle}
    (asked : before.length < hi) (checked : s.cache.checkOut (settings.ptsOf before.length) = .ok (hit, b)) :
    ∃ late, Left settings before.length rest passed late ∧ b.Lane late waiting ∧
      Window settings (settings.firstKept (before.length + 1)) hi (late.map (·.1) ++ waiting) ∧
      (passed = none ∨ settings.ptsOf (settings.firstKept (before.length + 1)) = settings.ptsOf before.length) := by
  obtain ⟨lost, con⟩ := placed.staffed.cache
  have lane := placed.lined.lane
  have window := placed.window
  have low : before.length - 1 ≤ settings.firstKept before.length := Nat.le_max_right ..
  rw [lane.times] at window
  cases same : passed with
  | none =>
      have early := placed.early same
      rw [same] at lane window
      refine ⟨rest, .all, ?_, PlaySettings.firstKept_succ_of_le early ▸ window, .inl rfl⟩
      exact lane.checkOut con checked (List.nil_append rest).symm nofun
        (window.not_lt_of_mem setting.rate (Nat.le_trans early (Nat.le_max_left ..)))
  | some x =>
      have time := placed.shown x same
      obtain ⟨more, first⟩ := placed.first setting same
      rw [same] at lane window
      by_cases early : before.length ≤ settings.renderAhead.toNat + 1
      · have kept : before.length ≤ settings.firstKept before.length := Nat.le_trans early (Nat.le_max_left ..)
        have now : settings.ptsOf before.length = settings.ptsOf (settings.firstKept before.length) :=
          PlaySettings.ptsOf_eq setting.rate kept (first ▸ PlaySettings.not_ptsOf_lt setting.rate (Nat.sub_le ..))
        rw [PlaySettings.firstKept_succ_of_le early]
        refine ⟨x :: rest, .same, ?_, window, .inr now.symm⟩
        exact lane.checkOut con checked (List.nil_append _).symm nofun (window.not_lt_of_mem setting.rate kept)
      · obtain ⟨kept, next⟩ := PlaySettings.firstKept_succ_of_lt (Nat.not_le.1 early)
        have last : settings.firstKept before.length = before.length - 1 := by omega
        rw [kept]
        by_cases later : settings.ptsOf (before.length - 1) < settings.ptsOf before.length
        · have window' : Window settings before.length hi (rest.map (·.1) ++ waiting) :=
            next ▸ window.drop setting.rate rfl (by rwa [next, last]) more
          refine ⟨rest, .next later, ?_, window', .inr rfl⟩
          refine lane.checkOut con checked (List.singleton_append).symm (fun y member => ?_)
            (window'.not_lt_of_mem setting.rate (Nat.le_refl _))
          rw [List.mem_singleton.1 member, time]
          exact later
        · have still := PlaySettings.ptsOf_eq setting.rate (Nat.sub_le ..) later
          have window' : Window settings before.length hi ((x :: rest).map (·.1) ++ waiting) :=
            next ▸ window.stay (by omega) (by rw [next, last, still])
          refine ⟨x :: rest, .same, ?_, window', .inr rfl⟩
          exact lane.checkOut con checked (List.nil_append _).symm nofun
            (window'.not_lt_of_mem setting.rate (Nat.le_refl _))

/-- The frame found in the lane tells, or is one of the first. -/
theorem InLane.tells (placed : InLane settings fresh before hi passed rest waiting s) {frame : Frame}
    {later : List (Binary64 × Frame)} (parts : late = (settings.ptsOf before.length, frame) :: later)
    (left : Left settings before.length rest passed late) (lane : t.cache.Lane late waiting)
    (state : t.backend.state = s.backend.state) :
    Tells (before.length ≤ settings.startUp) before.head? before frame ∧
      t.Lined fresh (settings.ptsOf settings.startUp) (frame :: before) (some (settings.ptsOf before.length, frame))
        later waiting := by
  cases left with
  | all =>
      obtain ⟨tells, lined⟩ := placed.lined.hit parts lane state
      refine ⟨tells.imp fun _ => ?_, lined⟩
      have bound := placed.early rfl
      unfold PlaySettings.startUp
      omega
  | next after =>
      obtain ⟨tells, lined⟩ := placed.lined.hit parts lane state
      refine ⟨tells.imp fun low => ?_, lined⟩
      have less := PlaySettings.lt_of_ptsOf_lt setting.rate (Binary64.lt_of_lt_of_le after low)
      omega
  | same =>
      obtain ⟨rfl, rfl⟩ := List.cons.inj parts
      exact placed.lined.stay _ rfl lane state

/-- The frame is rendered for itself, which happens to those only that were not asked for in time. -/
theorem Ready.onDemand (ready : Ready settings fresh before (before.length + 1 + settings.renderAhead.toNat) none rest
      waiting s) (lane : t.cache.Lane rest waiting)
    (window : Window settings (settings.firstKept (before.length + 1)) (before.length + 1 + settings.renderAhead.toNat)
      t.cache.times)
    (missed : ¬ (settings.ptsOf (settings.firstKept (before.length + 1))).Same (settings.ptsOf before.length))
    (answer : (Backend.render settings.geometry (settings.ptsOf before.length) s.backend.state).1 = .ok f.frame)
    (state : t.backend.state = (Backend.render settings.geometry (settings.ptsOf before.length) s.backend.state).2)
    (staffed : t.Staffed (settings.renderAhead.toNat + Options.spareEntries))
    (geometry : t.geometry = settings.geometry) (rested : t.worker = .running → t.Idle) :
    Tells (before.length ≤ settings.startUp) before.head? before f.frame ∧
      Ready settings fresh (f.frame :: before) (before.length + 1 + settings.renderAhead.toNat) none rest waiting
        t := by
  have early : before.length + 1 ≤ settings.renderAhead.toNat + 1 := by
    have bound := ready.early rfl
    by_contra last
    refine missed ?_
    rw [show settings.firstKept (before.length + 1) = before.length by unfold PlaySettings.firstKept; omega]
    exact PlaySettings.ptsOf_same setting.rate _
  have start : before.length + 1 + settings.renderAhead.toNat ≤ settings.startUp := by
    unfold PlaySettings.startUp
    omega
  have grow := AnyBackend.numbersGrow_of_builtin setting.builtin
  obtain ⟨tells, lined⟩ := ready.lined.demand grow rfl answer lane state
  exact ⟨tells.imp fun _ => by omega, ⟨staffed, geometry, lined, window, fun _ => early, nofun⟩, rested, .inl start⟩

/-- A frame is shown: it is the next one of the lane, or the one shown last, or rendered for itself. -/
theorem Ready.shows (ready : Ready settings fresh before (before.length + 1 + settings.renderAhead.toNat) passed rest
      waiting s) (begun : 0 < before.length)
    (acquired : s.acquire settings.geometry (settings.ptsOf before.length) = (.frame f, out))
    (released : out.release f = .ok back) :
    Tells (before.length ≤ settings.startUp) before.head? before f.frame ∧ ∃ passed rest waiting,
      Ready settings fresh (f.frame :: before) (before.length + 1 + settings.renderAhead.toNat) passed rest waiting
        back := by
  obtain ⟨lost, con⟩ := ready.staffed.cache
  have same : s.geometry.Same settings.geometry := by
    rw [ready.geometry]
    exact settings.geometry_same
  obtain ⟨hit, b, checked, staffed, idle, outcome⟩ := ready.staffed.shows same setting.visible acquired released
  obtain ⟨late, left, lane, window, turn⟩ := ready.lookUp setting (by omega) checked
  obtain ⟨-, hits⟩ := con.times_checkOut checked
  have some := setting.some
  have first := window.head?_eq setting.rate (by unfold PlaySettings.firstKept; omega)
  rw [lane.times, first] at hits
  obtain ⟨rfl, answer, rfl⟩ | ⟨h, c, rfl, atHead, shown, carries, queue, rfl⟩ := outcome
  · have missed : ¬ (settings.ptsOf (settings.firstKept (before.length + 1))).Same (settings.ptsOf before.length) :=
      fun same => absurd hits (by simp [same])
    obtain rfl | now := turn
    · cases left with
      | all =>
          have state := LoggedBackend.state_render .demand settings.geometry (settings.ptsOf before.length) s.backend
          obtain ⟨tells, ready'⟩ := ready.onDemand setting (t := { s with
            cache := b, backend := (s.backend.render .demand settings.geometry (settings.ptsOf before.length)).2 })
            lane (lane.times ▸ window) missed answer state staffed ready.geometry fun running =>
              idle (ready.rested running)
          exact ⟨tells, none, rest, waiting, ready'⟩
    · exact absurd (now ▸ PlaySettings.ptsOf_same setting.rate _) missed
  · obtain ⟨q, later, parts, -⟩ := lane.head atHead shown
    have kept : before.length ≤ settings.firstKept (before.length + 1) := Nat.le_max_right ..
    have found : (settings.ptsOf (settings.firstKept (before.length + 1))).Same (settings.ptsOf before.length) := by
      simpa using hits.symm
    have now := PlaySettings.ptsOf_eq setting.rate kept (Binary64.not_lt_of_same found.symm)
    have time : q = settings.ptsOf before.length := by
      rw [parts] at first
      exact (Option.some.inj first).trans now.symm
    have lane' : c.Lane late waiting := lane.of_carries carries queue
    rw [time] at parts
    obtain ⟨tells, lined⟩ := ready.tells setting (t := { s with cache := c }) parts left lane' rfl
    refine ⟨tells, _, later, waiting, ⟨staffed, ready.geometry, lined, lane'.times ▸ window, nofun, fun x same => ?_⟩,
      fun running => idle (ready.rested running), ready.link⟩
    rw [← Option.some.inj same]
    rfl

omit setting in
theorem ready_rest (ready : Ready settings fresh before hi passed rest waiting s) :
    Ready settings fresh before hi passed rest waiting (Player.rest s) := by
  have settled : s.settle = s := by
    by_cases running : s.worker = .running
    · exact Stream.settle_of_idle (ready.rested running)
    · exact Stream.settle_of_not_running running
  obtain ⟨⟨⟨threaded, room, source, noFrame, free, cache, capacity⟩, geometry, lined, window, early, shown⟩, rested,
    link⟩ := ready
  rw [Player.rest, settled]
  refine ⟨⟨⟨threaded, room, source, noFrame, free, cache, capacity⟩, geometry, ⟨lined.lane, lined.told, lined.latest,
    lined.drawn⟩, window, early, shown⟩, fun running => ?_, link⟩
  exact ⟨(rested running).decoded, (rested running).rendered⟩

/-! ## The first frame -/

/-- Before the first frame there are no pixels to render for, whatever was asked for. -/
structure Primed (settings : PlaySettings) (fresh : AnyBackend) (s : Stream AnyBackend) : Prop where
  staffed : s.Staffed (settings.renderAhead.toNat + Options.spareEntries)
  unset : s.geometry.isVoid = true
  idle : s.worker = .running → s.Idle
  recorded : ∃ us, s.backend.state = afterUses fresh us ∧ Recorded fresh us []

omit setting in
theorem Primed.readFor (primed : Primed settings fresh s) (index : Nat) :
    Primed settings fresh (readFor settings index s) := by
  obtain ⟨r, prepared, staffed, -⟩ := primed.staffed.prepare (settings.ptsOf index)
  obtain ⟨lost, con⟩ := staffed.cache
  have decodes := decodes_readFor (.inr primed.unset) settings index
  obtain ⟨ps, state⟩ := decodes.state
  obtain ⟨us, old, recorded⟩ := primed.recorded
  refine ⟨?_, decodes.geometry ▸ primed.unset, ?_, ps.map .decode ++ us, ?_, recorded.decodes ps⟩
  · rw [Player.readFor, prepared]
    exact staffed.settle.1
  · rw [Player.readFor, prepared]
    exact Stream.settle_idle con
  · rw [state, old, afterUses_append]

omit setting in
theorem Primed.readForFirst (primed : Primed settings fresh s) (count : Nat) :
    Primed settings fresh (readForFirst settings count s) := by
  induction count with
  | zero => exact primed
  | succ count ih => exact ih.readFor count

theorem Opened.primed (opened : Opened settings script fresh us s) (text : script.codec.name ≠ "picture") :
    Primed settings fresh s := by
  have unread := opened.picture.trans (decide_eq_false text)
  obtain ⟨backend, lastVideo, rfl⟩ := opened.stream
  have ahead : 0 < settings.renderAhead := UInt64.lt_iff_toNat_lt.2 setting.some
  have staffed : Stream.Staffed (settings.renderAhead.toNat + Options.spareEntries)
      { Stream.ofBackend script.codec (.ofPackets script.packets) { renderAhead := settings.renderAhead } fresh with
        backend, lastVideo } := {
    threaded := by simp [Stream.threaded, Stream.ofBackend, unread, ahead]
    room := unread
    source := ⟨_, rfl⟩
    noFrame := rfl
    free := rfl
    cache := ⟨[], .ofCapacity _⟩
    capacity := rfl }
  refine ⟨staffed, rfl, fun _ => ⟨rfl, fun _ => ?_⟩, us, opened.state, List.forall_mem_nil _, opened.unshown⟩
  exact List.forall_mem_nil _

/-- The first frame is rendered for itself, and nothing is queued then. -/
theorem Primed.shows (primed : Primed settings fresh s)
    (acquired : s.acquire settings.geometry (settings.ptsOf 0) = (.frame f, out))
    (released : out.release f = .ok back) :
    Tells False none [] f.frame ∧
      Ready settings fresh [f.frame] (1 + settings.renderAhead.toNat) none [] [] back := by
  obtain ⟨r, staffed, geometry, empty, backend, worker, idle, same⟩ :=
    primed.staffed.adopts primed.unset setting.visible settings.geometry_same
  rw [same] at acquired
  have adopted : r.geometry.Same settings.geometry := geometry ▸ settings.geometry_same
  obtain ⟨lost, con⟩ := staffed.cache
  obtain ⟨hit, b, checked, staffed', idle', outcome⟩ := staffed.shows adopted setting.visible acquired released
  obtain ⟨b', checked', bEmpty⟩ := con.checkOut_of_nil empty (settings.ptsOf 0)
  obtain ⟨rfl, rfl⟩ := Prod.mk.inj (Except.ok.inj (checked'.symm.trans checked))
  obtain ⟨-, answer, rfl⟩ | ⟨h, c, hit, -⟩ := outcome
  · obtain ⟨us, state, recorded⟩ := primed.recorded
    rw [backend, state] at answer
    have answer : renderAfter fresh us settings.geometry (settings.ptsOf 0) = .ok f.frame := answer
    have kept : settings.firstKept 1 = 1 + settings.renderAhead.toNat := by
      unfold PlaySettings.firstKept
      omega
    have lane : b'.Lane [] [] := Cache.lane_of_queue_nil bEmpty
    refine ⟨recorded.tells setting.builtin answer, ⟨staffed', geometry, ⟨lane, trivial, nofun,
      .render settings.geometry (settings.ptsOf 0) :: us, ?_, ?_⟩, ?_, fun _ => ?_, nofun⟩,
      fun running => idle' (idle (primed.idle (worker ▸ running))), .inl ?_⟩
    · show (r.backend.render .demand settings.geometry (settings.ptsOf 0)).2.state = _
      rw [LoggedBackend.state_render, backend, state]
      rfl
    · intro e member
      rw [List.mem_singleton.1 member]
      exact drawn_now answer
    · show Window settings (settings.firstKept 1) _ b'.times
      rw [kept, lane.times]
      exact .nil settings _
    · exact Nat.le_add_left ..
    · unfold PlaySettings.startUp
      omega
  · cases hit

/-- Nothing is waited for then. -/
theorem Primed.acquire_ne_stalled (primed : Primed settings fresh s) (pts : Binary64) :
    (s.acquire settings.geometry pts).1 ≠ .stalled := by
  obtain ⟨r, staffed, geometry, empty, -, -, -, same⟩ :=
    primed.staffed.adopts primed.unset setting.visible settings.geometry_same
  obtain ⟨lost, con⟩ := staffed.cache
  obtain ⟨b, checked, -⟩ := con.checkOut_of_nil empty pts
  have adopted : r.geometry.Same settings.geometry := geometry ▸ settings.geometry_same
  rw [same, Stream.acquire_miss staffed.threaded staffed.noFrame staffed.free adopted setting.visible checked]
  exact Stream.renderOnDemand_ne_stalled _ _ _

/-! ## From frame to frame -/

/-- What is kept of a stream that renders ahead. -/
def Ahead (settings : PlaySettings) (fresh : AnyBackend) (before : List Frame) (s : Stream AnyBackend) : Prop :=
  (before = [] ∧ Primed settings fresh s) ∨ (0 < before.length ∧ ∃ passed rest waiting,
    Ready settings fresh before (before.length + settings.renderAhead.toNat) passed rest waiting s)

/-- Each frame is the next of the lane, once those are shown that were not asked for in time. -/
theorem upholds_ahead : Upholds settings (fun i => 0 < i ∧ i ≤ settings.startUp) (Ahead settings fresh) := by
  intro before s f out back kept acquired released
  obtain ⟨rfl, primed⟩ | ⟨begun, passed, rest, waiting, ready⟩ := kept
  · obtain ⟨tells, ready⟩ := (primed.readFor _).shows setting acquired released
    exact ⟨tells.imp False.elim, .inr ⟨Nat.zero_lt_one, _, _, _, ready_rest ready⟩⟩
  · obtain ⟨rest, waiting, ready'⟩ := ready.read setting begun rfl
    rw [Nat.add_right_comm] at ready'
    obtain ⟨tells, passed, rest, waiting, ready''⟩ := ready'.shows setting begun acquired released
    exact ⟨tells.imp fun start => ⟨begun, start⟩, .inr ⟨Nat.succ_pos _, passed, rest, waiting, ready_rest ready''⟩⟩

/-- A worker that is there has rendered what is asked for. -/
theorem attends_ahead : Attends settings (Ahead settings fresh) := by
  intro before s kept stalled
  obtain ⟨rfl, primed⟩ | ⟨begun, passed, rest, waiting, ready⟩ := kept
  · exact absurd stalled ((primed.readFor _).acquire_ne_stalled setting _)
  · obtain ⟨rest, waiting, ready'⟩ := ready.read setting begun rfl
    have same : (readFor settings (before.length + settings.renderAhead.toNat) s).geometry.Same settings.geometry := by
      rw [ready'.geometry]
      exact settings.geometry_same
    cases worker : (readFor settings (before.length + settings.renderAhead.toNat) s).worker with
    | absent =>
        have threaded := ready'.staffed.threaded
        simp [Stream.threaded, worker] at threaded
    | running =>
        exact absurd stalled (ready'.staffed.acquire_ne_stalled same setting.visible (ready'.rested worker) _)
    | crashed f => exact ⟨f, rfl⟩

end Player
end Subtitles
