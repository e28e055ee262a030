/-
# Proofs.Session.SteadyPlayback: who asks ahead is served from the cache

A player prepares a time that lies `ahead` of the one it shows next, shows that one, and goes on to the
next two. Between two such rounds its stream is `Poised`. What is queued then is a stretch of the times
it plays (`window`): a round adds the time prepared at its end and drops those already shown from its
front (`Poised.round`). The stretch never outgrows the queue, so no request is refused, and from the
round on that comes after the first `ahead` it begins with the time to show (`Poised.rounds`). Before
that frames are rendered on demand, one more of them than are asked for ahead, for the first acquire
sets the geometry and flushes what was queued.
-/
import Subtitles.Proofs.Cache.Bounds
import Subtitles.Proofs.Session.Cached
import Subtitles.Proofs.Session.Rest
import Subtitles.Proofs.Stream.Staffed
namespace Subtitles

set_option autoImplicit false

open LoggedBackend (Returns)

/-- Prepare one time, and show another. -/
def steadyRound (g : Geometry) (times : Binary64 × Binary64) : List Action :=
  [.prepare times.2, .acquire g times.1, .release]

/-- Each time is prepared so many rounds before its own. -/
def steadyActions (g : Geometry) (ahead : Nat) (times : List Binary64) : List Action :=
  (times.zip (times.drop ahead)).flatMap (steadyRound g)

/-! ## Times in order -/

section Times

variable {times : List Binary64} {i m : Nat} {now : Binary64}

theorem getElem?_lt_of_lt (increasing : times.Pairwise (· < ·)) {j : Nat} {p q : Binary64} (before : i < j)
    (first : times[i]? = some p) (second : times[j]? = some q) : p < q := by
  obtain ⟨boundI, rfl⟩ := List.getElem?_eq_some_iff.1 first
  obtain ⟨boundJ, rfl⟩ := List.getElem?_eq_some_iff.1 second
  exact List.pairwise_iff_getElem.1 increasing i j boundI boundJ before

/-- Of times in order, those before the one in place `i` are the ones in front of it. -/
theorem dropWhile_drop (increasing : times.Pairwise (· < ·)) (here : times[i]? = some now) (m : Nat) :
    (times.drop m).dropWhile (fun p => decide (p < now)) = times.drop (max m i) := by
  rcases Nat.le_total i m with past | early
  · rw [max_eq_left past]
    cases left : times.drop m with
    | nil => rfl
    | cons p rest =>
        have there : times[m]? = some p := by rw [← List.head?_drop, left, List.head?_cons]
        have late : ¬ p < now := by
          rcases Nat.lt_or_eq_of_le past with before | rfl
          · exact Binary64.lt_asymm (getElem?_lt_of_lt increasing before here there)
          · rw [Option.some.inj (here.symm.trans there)]
            exact Binary64.lt_irrefl p
        exact List.dropWhile_cons_of_neg (by simpa using late)
  · have parts : times.drop m = (times.take i).drop m ++ times.drop i := by
      have rest : times.drop i = (times.drop m).drop (i - m) := by
        rw [List.drop_drop, Nat.add_sub_cancel' early]
      rw [List.drop_take, rest, List.take_append_drop]
    have before : ∀ p ∈ (times.take i).drop m, decide (p < now) = true := by
      intro p member
      obtain ⟨j, bound, there⟩ := List.mem_take_iff_getElem.1 (List.mem_of_mem_drop member)
      refine decide_eq_true (getElem?_lt_of_lt increasing (i := j) (by omega) ?_ here)
      rw [← there, List.getElem?_eq_getElem]
    have stays : (times.drop i).dropWhile (fun p => decide (p < now)) = times.drop i := by
      obtain ⟨bound, rfl⟩ := List.getElem?_eq_some_iff.1 here
      rw [List.drop_eq_getElem_cons bound]
      exact List.dropWhile_cons_of_neg (by simpa using Binary64.lt_irrefl _)
    rw [max_eq_right early, parts, List.dropWhile_append_of_pos before, stays]

/-- The times queued before round `i`, if frames are shown from the cache once `ahead` more than one have
been shown. -/
def window (ahead : Nat) (times : List Binary64) (i : Nat) : List Binary64 :=
  (times.take (i + ahead)).drop (max (ahead + 1) (i - 1))

variable {ahead : Nat} {later : Binary64}

theorem window_zero (ahead : Nat) (times : List Binary64) : window ahead times 0 = [] := by
  refine List.drop_eq_nil_of_le ?_
  have short := List.length_take_le (0 + ahead) times
  omega

theorem window_one (ahead : Nat) (times : List Binary64) : window ahead times 1 = [] := by
  refine List.drop_eq_nil_of_le ?_
  have short := List.length_take_le (1 + ahead) times
  omega

theorem length_window_le (ahead : Nat) (times : List Binary64) (i : Nat) :
    (window ahead times i).length ≤ ahead + 1 := by
  have short := List.length_take_le (i + ahead) times
  rw [window, List.length_drop]
  omega

theorem lt_of_mem_window (increasing : times.Pairwise (· < ·)) (there : times[i + ahead]? = some later) :
    ∀ p ∈ window ahead times i, p < later := by
  intro p member
  obtain ⟨j, bound, same⟩ := List.mem_take_iff_getElem.1 (List.mem_of_mem_drop member)
  refine getElem?_lt_of_lt increasing (i := j) (by omega) ?_ there
  rw [← same, List.getElem?_eq_getElem]

/-- A round adds a time at the end, and drops what is before the one shown. -/
theorem window_succ (increasing : times.Pairwise (· < ·)) (positive : 0 < i) (here : times[i]? = some now)
    (there : times[i + ahead]? = some later) :
    (window ahead times i ++ [later]).dropWhile (fun p => decide (p < now)) = window ahead times (i + 1) := by
  obtain ⟨bound, last⟩ := List.getElem?_eq_some_iff.1 there
  have grown : window ahead times i ++ [later] = (times.take (i + ahead + 1)).drop (max (ahead + 1) (i - 1)) := by
    rw [window, List.take_add_one, there, List.drop_append_of_le_length]
    · rfl
    · rw [List.length_take]
      omega
  have shown : (times.take (i + ahead + 1))[i]? = some now := by
    rw [List.getElem?_take_of_lt (by omega), here]
  rw [grown, dropWhile_drop (increasing.sublist (List.take_sublist _ _)) shown, window]
  congr 1
  · omega
  · rw [Nat.add_right_comm]

/-- The time to show comes first in its turn, once those are past that nothing was kept for. -/
theorem head?_window (increasing : times.Pairwise (· < ·)) (asks : 0 < ahead) (here : times[i]? = some now)
    (there : times[i + ahead]? = some later) :
    (window ahead times (i + 1)).head?.any (fun p => decide (p.Same now)) = decide (ahead < i) := by
  rw [window, List.head?_drop]
  by_cases past : ahead < i
  · have number : now.Same now := Binary64.same_self_iff.2 (getElem?_lt_of_lt increasing (by omega) here there).1.1
    rw [show max (ahead + 1) (i + 1 - 1) = i by omega, List.getElem?_take_of_lt (by omega), here]
    simp [past, number]
  · rw [show max (ahead + 1) (i + 1 - 1) = ahead + 1 by omega]
    cases first : (times.take (i + 1 + ahead))[ahead + 1]? with
    | none => simp [past]
    | some p =>
        have kept : times[ahead + 1]? = some p := by
          rw [List.getElem?_take] at first
          split at first
          · exact first
          · cases first
        have before : now < p := getElem?_lt_of_lt increasing (by omega) here kept
        have other : ¬ p.Same now := fun same => Binary64.not_lt_of_same same.symm before
        simp [past, other]

end Times

variable {σ : Type} [Backend σ]

/-! ## Between two rounds -/

namespace Stream

variable {s t : Stream σ} {fresh : σ} {n : Nat}

/-- Between two rounds the worker waits, nothing is out, and the source does not stall. -/
structure Poised (fresh : σ) (n : Nat) (s : Stream σ) : Prop where
  sound : Underway.Sound fresh n ⟨s, none⟩
  running : s.worker = .running
  idle : s.Idle
  noFrame : s.current = none
  free : s.reserved = false
  room : s.pushesBack = false
  source : ∃ ps, s.source = .ofPackets ps

namespace Poised

theorem threaded (poised : s.Poised fresh n) : s.threaded = true := by
  rw [Stream.threaded, poised.running]
  rfl

theorem settled (poised : s.Poised fresh n) : s.settle = s :=
  settle_of_idle poised.idle

/-- The worker's turn. None of its renders ends it. -/
theorem of_settle (returns : Returns fresh) (sound : Underway.Sound fresh n ⟨s, none⟩) (running : s.worker = .running)
    (noFrame : s.current = none) (free : s.reserved = false) (room : s.pushesBack = false)
    (source : ∃ ps, s.source = .ofPackets ps) : s.settle.Poised fresh n := by
  obtain works | faults := Underway.works_settle sound free
  · obtain ⟨worker, current, reserved⟩ := Underway.frame_works works sound
    have running' := worker.trans running
    refine ⟨sound.works works, running', settle_idle sound.consistent running', current.trans noFrame,
      reserved.trans free, ?_, ?_⟩
    · rw [s.settle_frame]
      exact room
    · rw [s.settle_frame]
      exact source
  · exact absurd faults (sound.not_faults returns)

/-- The geometry is adopted first, which flushes the queue unless it was that one before. -/
theorem adopt (poised : s.Poised fresh n) {g : Geometry} (self : g.Same g) :
    ∃ t : Stream σ, t.Poised fresh n ∧ t.geometry.Same g ∧
      t.cache.times = (if s.geometry.Same g then s.cache.times else []) ∧
      t.cache.admission = s.cache.admission ∧ ∀ pts, s.acquire g pts = t.acquire g pts := by
  by_cases same : s.geometry.Same g
  · exact ⟨s, poised, same, (if_pos same).symm, rfl, fun _ => rfl⟩
  · obtain ⟨b, flushed, -, -, empty⟩ := poised.sound.consistent.flush
    have flushed : s.cache.flush = .ok b := flushed
    have done : s.adopt g = .ok { s with geometry := g, cache := b } := by
      rw [Stream.adopt, if_neg same, flushed]
      rfl
    obtain ⟨t, done', sound, adopted⟩ := poised.sound.adopt g
    obtain rfl := Except.ok.inj (done.symm.trans done')
    refine ⟨_, ⟨sound, poised.running, adopted.idle poised.idle, poised.noFrame, poised.free, poised.room,
      poised.source⟩, self, ?_, Cache.admission_flush flushed, acquire_adopts poised.threaded same self flushed⟩
    rw [if_neg same]
    exact Cache.times_of_queue_nil empty

/-- A frame is taken out, the worker waits meanwhile, and the frame is given back. It comes from the cache
where its time is then the first one queued. -/
structure Displays (fresh : σ) (n : Nat) (g : Geometry) (pts : Binary64) (s : Stream σ) (f : HeldFrame)
    (out back : Stream σ) : Prop where
  acquired : s.acquire g pts = (.frame f, out)
  waits : out.settle = out
  released : out.release f = .ok back
  poised : back.Poised fresh n
  geometry : back.geometry = s.geometry
  times : back.cache.times = s.cache.times.dropWhile fun p => decide (p < pts)
  admission : out.cache.admission = s.cache.admission ∧ back.cache.admission = s.cache.admission
  time : f.pts = pts
  cached : f.isCached = back.cache.times.head?.any fun p => decide (p.Same pts)

theorem displays (returns : Returns fresh) (poised : s.Poised fresh n) {g : Geometry} (same : s.geometry.Same g)
    (visible : g.isVoid = false) (pts : Binary64) : ∃ f out back, Displays fresh n g pts s f out back := by
  have pixels : s.geometry.isVoid = false := same.isVoid_eq.trans visible
  obtain ⟨hit, b, checked, sound, carries, queued⟩ := poised.sound.checkOut poised.noFrame pixels pts
  have checked : s.cache.checkOut pts = .ok (hit, b) := checked
  obtain ⟨times, hits⟩ := Cache.Consistent.times_checkOut poised.sound.consistent checked
  have admission := Cache.admission_checkOut checked
  have idle : Idle { s with cache := b } := poised.idle.carry carries rfl rfl
  cases hit with
  | none =>
      have missed := Stream.acquire_miss poised.threaded poised.noFrame poised.free same visible checked
      have served := poised.sound.served.render .demand g pts
      have free : Stream.reserved { s with cache := b } = false := poised.free
      obtain ⟨frame, answer⟩ := returns s.backend poised.sound.served g pts
      rw [renderOnDemand_eq free answer] at missed
      refine ⟨_, _, { s with cache := b, backend := (s.backend.render .demand g pts).2 },
        missed, ?_, ?_, ?_, rfl, times, ⟨admission, admission⟩, rfl, hits⟩
      · exact settle_of_idle ⟨idle.decoded, idle.rendered⟩
      · simp only [release, if_true]
        rw [poised.free]
      · exact ⟨poised.noFrame ▸ sound.quiet served rfl rfl rfl, poised.running, ⟨idle.decoded, idle.rendered⟩,
          poised.noFrame, poised.free, poised.room, poised.source⟩
  | some h =>
      have rendered : b.isRendered h = true := idle.rendered pixels h (queued h rfl)
      obtain ⟨frame, shown⟩ := Option.isSome_iff_exists.1
        ((Cache.isSome_frame? sound.consistent.accounted h).trans rendered)
      obtain ⟨b', released, queue, carries'⟩ := sound.given rfl
      have released : b.release h = .ok b' := released
      have times' : b'.times = b.times := Cache.times_congr queue carries'.pts
      have admission' : b'.admission = s.cache.admission := (Cache.admission_release released).trans admission
      have found := Stream.acquire_hit poised.threaded poised.noFrame poised.free same visible checked shown
      refine ⟨_, _, { s with cache := b', current := none }, found, ?_, ?_, ?_, rfl, times'.trans times,
        ⟨admission, admission'⟩, rfl, ?_⟩
      · exact settle_of_idle ⟨idle.decoded, idle.rendered⟩
      · simp only [release, if_true]
        rw [released]
        rfl
      · exact ⟨sound.giveBack rfl released, poised.running, idle.carry carries' rfl rfl, rfl, poised.free, poised.room,
          poised.source⟩
      · rw [times']
        exact hits

/-- A stream that renders ahead of a source that does not stall, once opened. -/
theorem opened (push : Backend.accepts fresh = none) (codec : Codec) (ps : List Packet) (visible : Bool)
    {count : UInt64} (positive : 0 < count) :
    (Stream.ofBackend codec (.ofPackets ps) { renderAhead := count, visible } fresh).Poised fresh
      (count.toNat + Options.spareEntries) := by
  have reached : Underway.Reached (.ofBackend codec (.ofPackets ps) { renderAhead := count, visible } fresh)
      ⟨.ofBackend codec (.ofPackets ps) { renderAhead := count, visible } fresh, none⟩ := .start
  exact {
    sound := reached.sound
    running := by simp [ofBackend, push, positive]
    idle := ⟨rfl, nofun⟩
    noFrame := rfl
    free := rfl
    room := by simp [ofBackend, push]
    source := ⟨ps, rfl⟩ }

end Poised
end Stream

/-! ## Rounds -/

namespace Session

variable {s : Stream σ} {fresh : σ} {n : Nat} {g : Geometry}

theorem run_cons (s : Session σ) (a : Action) (rest : List Action) :
    s.run (a :: rest) = ((s.step a).1 :: ((s.step a).2.run rest).1, ((s.step a).2.run rest).2) :=
  rfl

theorem step_acquire_of_frame {pts : Binary64} {f : HeldFrame} {out : Stream σ}
    (acquired : s.acquire g pts = (.frame f, out)) (waits : out.settle = out) :
    (⟨s, none⟩ : Session σ).step (.acquire g pts) = (.frame f, ⟨out, some f⟩) := by
  rw [step_of_acquire, acquire, acquired]
  simp only [waits]

/-- What a round comes to: a frame was shown, and these times are queued. -/
structure Plays (fresh : σ) (n : Nat) (g : Geometry) (now : Binary64) (actions : List Action) (s : Stream σ)
    (f : HeldFrame) (t : Stream σ) : Prop where
  run : (⟨s, none⟩ : Session σ).run actions = ([.flag true, .frame f, .flag true], ⟨t, none⟩)
  poised : t.Poised fresh n
  geometry : t.geometry.Same g
  time : f.pts = now
  cached : f.isCached = t.cache.times.head?.any fun p => decide (p.Same now)
  admission : ∀ earlier, earlier <+: actions →
    ((⟨s, none⟩ : Session σ).run earlier).2.stream.cache.admission = s.cache.admission

theorem step_prepare (returns : Returns fresh) (poised : s.Poised fresh n) {later : Binary64}
    (room : s.cache.times.length < s.cache.capacity) (after : ∀ p ∈ s.cache.times, p < later) :
    ∃ t : Stream σ, (⟨s, none⟩ : Session σ).step (.prepare later) = (.flag true, ⟨t, none⟩) ∧ t.Poised fresh n ∧
      t.geometry = s.geometry ∧ t.cache.times = s.cache.times ++ [later] ∧ t.cache.admission = s.cache.admission := by
  obtain ⟨rest, lastRead, taken, read⟩ := Stream.prepare_of_packets poised.threaded poised.room poised.source later
  have stepped : (⟨s, none⟩ : Session σ).step (.prepare later) = (.flag true, ⟨Stream.settle { s with
      source := .ofPackets rest, lastRead, pending := taken, cache := (s.cache.request later).2 }, none⟩) := by
    rw [step_of_free rfl, perform, read]
  have sound := (poised.sound.request later).quiet (t := { s with
    source := .ofPackets rest, lastRead, pending := taken, cache := (s.cache.request later).2 })
    poised.sound.served rfl rfl rfl
  obtain ⟨times, admission⟩ := Cache.Consistent.times_request poised.sound.consistent room after
  obtain ⟨times', admission'⟩ := Stream.times_settle sound.consistent
  refine ⟨_, stepped, .of_settle returns sound poised.running poised.noFrame poised.free poised.room ⟨rest, rfl⟩,
    ?_, times'.trans times, admission'.trans admission⟩
  rw [Stream.settle_frame]

theorem plays (returns : Returns fresh) (poised : s.Poised fresh n) (self : g.Same g) (visible : g.isVoid = false)
    {now later : Binary64} (room : s.cache.times.length < s.cache.capacity) (after : ∀ p ∈ s.cache.times, p < later) :
    ∃ f t, Plays fresh n g now (steadyRound g (now, later)) s f t ∧
      t.cache.times = (if s.geometry.Same g then s.cache.times ++ [later] else []).dropWhile
        fun p => decide (p < now) := by
  obtain ⟨p, prepared, poised₁, geometry₁, times₁, admission₁⟩ := step_prepare returns poised room after
  obtain ⟨r, poised₂, geometry₂, times₂, admission₂, same⟩ := poised₁.adopt self
  obtain ⟨f, out, back, shown⟩ := poised₂.displays returns geometry₂ visible now
  have acquired := step_acquire_of_frame ((same now).trans shown.acquired) shown.waits
  have released : (⟨out, some f⟩ : Session σ).step .release = (.flag true, ⟨back, none⟩) := by
    rw [step_release rfl shown.released, shown.poised.settled]
  refine ⟨f, back, ⟨?_, shown.poised, shown.geometry ▸ geometry₂, shown.time, shown.cached, ?_⟩, ?_⟩
  · rw [steadyRound, run_cons, prepared, run_cons, acquired, run_cons, released]
    rfl
  · have kept := admission₂.trans admission₁
    intro earlier part
    rcases List.prefix_cons_iff.1 part with rfl | ⟨_, rfl, part₁⟩
    · rfl
    · rw [run_cons, prepared]
      rcases List.prefix_cons_iff.1 part₁ with rfl | ⟨_, rfl, part₂⟩
      · exact admission₁
      · rw [run_cons, acquired]
        rcases List.prefix_cons_iff.1 part₂ with rfl | ⟨_, rfl, part₃⟩
        · exact shown.admission.1.trans kept
        · obtain rfl := List.prefix_nil.1 part₃
          rw [run_cons, released]
          exact shown.admission.2.trans kept
  · rw [shown.times, times₂, geometry₁, times₁]

/-- Round after round. -/
theorem rounds (returns : Returns fresh) {times : List Binary64} {ahead i : Nat}
    {pairs : List (Binary64 × Binary64)} (self : g.Same g) (visible : g.isVoid = false)
    (increasing : times.Pairwise (· < ·)) (asks : 0 < ahead)
    (parts : (times.zip (times.drop ahead)).drop i = pairs) (poised : s.Poised fresh n)
    (capacity : ahead + 1 < s.cache.capacity) (queued : s.cache.times = window ahead times i)
    (begun : s.geometry.Same g ↔ 0 < i) :
    ∃ frames : List HeldFrame,
      ((⟨s, none⟩ : Session σ).run (pairs.flatMap (steadyRound g))).1 =
        frames.flatMap (fun f => [.flag true, .frame f, .flag true]) ∧
      frames.map (·.pts) = pairs.map Prod.fst ∧
      (∀ (k : Nat) f, frames[k]? = some f → f.isCached = decide (ahead < i + k)) ∧
      ∀ earlier, earlier <+: pairs.flatMap (steadyRound g) →
        ((⟨s, none⟩ : Session σ).run earlier).2.stream.cache.admission = s.cache.admission := by
  induction pairs generalizing s i with
  | nil =>
      refine ⟨[], rfl, rfl, nofun, fun earlier part => ?_⟩
      obtain rfl := List.prefix_nil.1 part
      rfl
  | cons pair rest ih =>
      obtain ⟨now, later⟩ := pair
      have first : (times.zip (times.drop ahead))[i]? = some (now, later) := by
        rw [← List.head?_drop, parts, List.head?_cons]
      obtain ⟨here, there⟩ := List.getElem?_zip_eq_some.1 first
      rw [List.getElem?_drop, Nat.add_comm] at there
      have parts' : (times.zip (times.drop ahead)).drop (i + 1) = rest := by
        rw [← List.tail_drop, parts, List.tail_cons]
      have few := length_window_le ahead times i
      obtain ⟨f, t, played, times'⟩ := plays returns poised self visible (by rw [queued]; omega)
        (queued ▸ lt_of_mem_window increasing there)
      have window' : t.cache.times = window ahead times (i + 1) := by
        rw [times', queued]
        split
        · next same => exact window_succ increasing (begun.1 same) here there
        · next other =>
            obtain rfl : i = 0 := by
              by_contra positive
              exact other (begun.2 (Nat.pos_of_ne_zero positive))
            rw [List.dropWhile_nil, window_one]
      have admission := played.admission _ (List.prefix_refl _)
      rw [played.run] at admission
      have admission : t.cache.admission = s.cache.admission := admission
      have capacity' : t.cache.capacity = s.cache.capacity := congrArg Prod.fst admission
      obtain ⟨frames, answered, shown, cached, kept⟩ := ih parts' played.poised (capacity' ▸ capacity) window'
        (iff_of_true played.geometry (Nat.succ_pos i))
      refine ⟨f :: frames, ?_, ?_, ?_, ?_⟩
      · rw [List.flatMap_cons, run_append, played.run, answered, List.flatMap_cons]
      · rw [List.map_cons, List.map_cons, played.time, shown]
      · intro k f' found
        cases k with
        | zero =>
            obtain rfl := Option.some.inj found
            rw [played.cached, window', head?_window increasing asks here there, Nat.add_zero]
        | succ k =>
            rw [cached k f' found, Nat.add_right_comm, Nat.add_assoc]
      · intro earlier part
        rw [List.flatMap_cons] at part
        rcases List.prefix_or_prefix_of_prefix part (List.prefix_append _ _) with inside | ⟨more, rfl⟩
        · exact played.admission earlier inside
        · rw [run_append, played.run]
          exact (kept more ((List.prefix_append_right_inj _).1 part)).trans admission

end Session

/-- With a backend whose renders return, a player that prepares each time so many rounds before its own, as many
as are rendered ahead, is always answered, and gets all frames but the first from the cache: those shown after as
many rounds and one. No request is refused. -/
theorem steady_playback {fresh : σ} (returns : Returns fresh) (push : Backend.accepts fresh = none) {codec : Codec}
    {ps : List Packet} {visible : Bool} {count : UInt64} (positive : 0 < count) {g : Geometry}
    (pixels : g.isVoid = false) (self : g.Same g) {times : List Binary64} (increasing : times.Pairwise (· < ·)) :
    ∃ frames : List HeldFrame,
      ((Session.opened codec (.ofPackets ps) { renderAhead := count, visible } fresh).run
        (steadyActions g count.toNat times)).1 = frames.flatMap (fun f => [.flag true, .frame f, .flag true]) ∧
      frames.map (·.pts) = times.take (times.length - count.toNat) ∧
      (∀ (i : Nat) f, frames[i]? = some f → (f.isCached = true ↔ count.toNat < i)) ∧
      ∀ earlier, earlier <+: steadyActions g count.toNat times →
        ∃ cache, cache = ((Session.opened codec (.ofPackets ps) { renderAhead := count, visible } fresh).run
          earlier).2.stream.cache ∧ cache.stats.refusedFull = 0 ∧ cache.stats.refusedLate = 0 := by
  have poised := Stream.Poised.opened push codec ps visible positive
  have unset : ¬ Geometry.unset.Same g := by
    intro same
    exact Bool.noConfusion (pixels.symm.trans same.isVoid_eq.symm)
  have capacity : count.toNat + 1 < count.toNat + Options.spareEntries := Nat.add_lt_add_left (by decide) _
  obtain ⟨frames, answered, shown, cached, kept⟩ :=
    Session.rounds returns self pixels increasing (UInt64.lt_iff_toNat_lt.1 positive) List.drop_zero poised capacity
      (window_zero count.toNat times).symm (iff_of_false unset (Nat.lt_irrefl 0))
  refine ⟨frames, answered, ?_, ?_, ?_⟩
  · have places : min times.length (times.drop count.toNat).length = times.length - count.toNat := by
      rw [List.length_drop]
      omega
    rw [shown, List.zip_eq_zip_take_min, places]
    refine List.map_fst_zip ?_
    rw [List.length_take, List.length_take, List.length_drop]
    omega
  · intro i f found
    rw [cached i f found, decide_eq_true_iff, Nat.zero_add]
  · intro earlier part
    refine ⟨_, rfl, ?_, ?_⟩
    · exact congrArg (fun a : Nat × Nat × Nat => a.2.1) (kept earlier part)
    · exact congrArg (fun a : Nat × Nat × Nat => a.2.2) (kept earlier part)

/-- Seven times for two frames ahead: five frames are shown, and two of them come from the cache. -/
def steadySeven : List Action := steadyActions ⟨8, 4, {}, .one⟩ 2 ((List.range 7).map .ofNat)

theorem steady_playback_seven :
    Returns ({} : TallyBackend) ∧ Backend.accepts ({} : TallyBackend) = none ∧ (0 : UInt64) < 2 ∧
      Geometry.isVoid ⟨8, 4, {}, .one⟩ = false ∧ Geometry.Same ⟨8, 4, {}, .one⟩ ⟨8, 4, {}, .one⟩ ∧
      ((List.range 7).map Binary64.ofNat).Pairwise (· < ·) ∧
      ∃ frames : List HeldFrame, frames.length = 5 ∧
        (tallySession.run steadySeven).1 = frames.flatMap (fun f => [.flag true, .frame f, .flag true]) ∧
        ∀ (i : Nat) f, frames[i]? = some f → (f.isCached = true ↔ 2 < i) := by
  have returns := TallyBackend.returns {}
  have push : Backend.accepts ({} : TallyBackend) = none := rfl
  have ahead : (0 : UInt64) < 2 := by decide
  have increasing : ((List.range 7).map Binary64.ofNat).Pairwise (· < ·) := by decide +kernel
  have same : Geometry.Same ⟨8, 4, {}, .one⟩ ⟨8, 4, {}, .one⟩ := by decide +kernel
  obtain ⟨frames, shown, times, cached, -⟩ := steady_playback returns push ahead rfl same increasing
  exact ⟨returns, push, ahead, rfl, same, increasing, frames,
    by rw [← List.length_map, times]; rfl, shown, cached⟩

end Subtitles
