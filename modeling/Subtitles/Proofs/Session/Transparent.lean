/-
# Proofs.Session.Transparent: rendering ahead cannot be seen

Two sessions of text over one source of packets in order, one with a worker and one without, do
the same calls. Between calls they are `Paired`; a call is answered alike by both and leaves them
paired, unless a render overflows (`Paired.play`). An overflow shows in an answer or ends the
worker for good, so over a run without one all answers agree (`Paired.run`). Sessions are paired
once opened (`Paired.opened`), hence `rendering_ahead_is_transparent`.
-/
import Subtitles.Proofs.Session.Cached
import Subtitles.Proofs.Session.Workers
import Subtitles.Proofs.Stream.Beside
namespace Subtitles

set_option autoImplicit false

/-- A call of a player. A frame that is shown is given back at once. -/
inductive Playback
  | prepare (pts : Binary64)
  | drain
  | reset
  | text (pts : Binary64)
  | display (g : Geometry) (pts : Binary64)

def Playback.actions : Playback → List Action
  | .prepare pts => [.prepare pts]
  | .drain => [.drain]
  | .reset => [.reset]
  | .text pts => [.text pts]
  | .display g pts => [.acquire g pts, .release]

/-- The answers to an action are the same, or frames for its time that show the same. -/
def Action.Agree : Action → Answer → Answer → Prop
  | .acquire _ pts, x, y => ∃ f f', x = .frame f ∧ y = .frame f' ∧ f.pts = pts ∧ f'.pts = pts ∧
      f.frame.SameContent f'.frame
  | _, x, y => x = y

/-- Two runs of the same actions are answered alike. -/
inductive AnswersAgree : List Action → List Answer → List Answer → Prop
  | nil : AnswersAgree [] [] []
  | cons {a : Action} {x y : Answer} {actions : List Action} {xs ys : List Answer} :
      a.Agree x y → AnswersAgree actions xs ys → AnswersAgree (a :: actions) (x :: xs) (y :: ys)

theorem AnswersAgree.append {as bs : List Action} {xs ys xs' ys' : List Answer}
    (first : AnswersAgree as xs ys) (second : AnswersAgree bs xs' ys') :
    AnswersAgree (as ++ bs) (xs ++ xs') (ys ++ ys') := by
  induction first with
  | nil => exact second
  | cons agree _ ih => exact .cons agree ih

namespace Session

variable {σ : Type} [Backend σ]

/-- An overflow has ended the worker. -/
def Overflowed (s : Session σ) : Prop := ∃ op, s.stream.worker = .crashed (.overflow op)

theorem Overflowed.run {s : Session σ} (overflowed : s.Overflowed) {actions : List Action}
    (alone : ∀ pts g, .overtake pts g ∉ actions) : (s.run actions).2.Overflowed := by
  obtain ⟨op, crashed⟩ := overflowed
  exact ⟨op, (worker_run (by rw [crashed]; exact nofun) alone).trans crashed⟩

end Session

/-- The calls in order, with the answers to their actions. -/
def Session.play {σ : Type} [Backend σ] (s : Session σ) (calls : List Playback) : List Answer × Session σ :=
  s.run (calls.flatMap Playback.actions)

theorem Playback.alone (c : Playback) (pts : Binary64) (g : Geometry) : .overtake pts g ∉ c.actions := by
  cases c <;> simp [actions]

/-- Nothing is out on either side, and the worker sleeps. -/
structure Paired (plain ahead : Session TextBackend) : Prop where
  nothingHeld : plain.held = none ∧ ahead.held = none
  beside : Stream.Beside plain.stream ahead.stream
  steady : ahead.stream.Steady
  running : ahead.stream.worker = .running
  idle : ahead.stream.Idle
  free : ahead.stream.Holds none
  unreserved : plain.stream.reserved = false

namespace Paired

variable {plain ahead : Session TextBackend}

/-- After the worker's turn the two are paired, if it did not end. -/
theorem settle {p a : Stream TextBackend} (beside : Stream.Beside p a) (steady : a.Steady)
    (running : a.worker = .running) (free : a.Holds none) (unreserved : p.reserved = false) :
    Session.Overflowed ⟨a.settle, none⟩ ∨ Paired ⟨p.settle, none⟩ ⟨a.settle, none⟩ := by
  have beside' := beside.settle steady
  have still : p.settle = p := Stream.settle_of_not_running (by rw [beside.alone]; exact nofun)
  obtain ⟨steady', free', ⟨running', idle⟩ | ⟨op, crashed⟩⟩ := steady.settle running free
  · exact .inr ⟨⟨rfl, rfl⟩, beside', steady', running', idle, free', by rw [still]; exact unreserved⟩
  · exact .inl ⟨op, crashed⟩

/-- Calls without frames. -/
theorem step_alike (paired : Paired plain ahead) {x y : Answer} {p a : Stream TextBackend} {action : Action}
    (left : plain.perform action = (x, { plain with stream := p }))
    (right : ahead.perform action = (y, { ahead with stream := a }))
    (beside : Stream.Beside p a) (steady : a.Steady) (same : Stream.Undisturbed ahead.stream a)
    (unreserved : p.reserved = false) :
    (plain.step action).1 = x ∧ (ahead.step action).1 = y ∧
      ((ahead.step action).2.Overflowed ∨ Paired (plain.step action).2 (ahead.step action).2) := by
  obtain ⟨heldPlain, heldAhead⟩ := paired.nothingHeld
  rw [Session.step_of_free heldPlain, Session.step_of_free heldAhead, left, right]
  refine ⟨rfl, rfl, ?_⟩
  show Session.Overflowed ⟨a.settle, ahead.held⟩ ∨ Paired ⟨p.settle, plain.held⟩ ⟨a.settle, ahead.held⟩
  rw [heldPlain, heldAhead]
  exact settle beside steady (same.worker.trans paired.running) (paired.free.undisturbed same) unreserved

theorem step_prepare (paired : Paired plain ahead) (pts : Binary64) :
    (plain.step (.prepare pts)).1 = (ahead.step (.prepare pts)).1 ∧
      ((ahead.step (.prepare pts)).2.Overflowed ∨
        Paired (plain.step (.prepare pts)).2 (ahead.step (.prepare pts)).2) := by
  obtain ⟨same, beside⟩ := paired.beside.prepare paired.steady pts
  have performs : ∀ s : Session TextBackend,
      s.perform (.prepare pts) = (.flag (s.stream.prepare pts).1, { s with stream := (s.stream.prepare pts).2 }) :=
    fun _ => rfl
  obtain ⟨left, right, next⟩ := paired.step_alike (performs plain) (performs ahead) beside
    (paired.steady.prepare pts).2 (Stream.undisturbed_prepare pts _)
    ((Stream.undisturbed_prepare pts _).reserved.trans paired.unreserved)
  exact ⟨left.trans ((congrArg Answer.flag same).trans right.symm), next⟩

theorem step_drain (paired : Paired plain ahead) :
    (plain.step .drain).1 = (ahead.step .drain).1 ∧
      ((ahead.step .drain).2.Overflowed ∨ Paired (plain.step .drain).2 (ahead.step .drain).2) := by
  obtain ⟨same, beside⟩ := paired.beside.drain paired.steady
  obtain ⟨done, steady⟩ := paired.steady.drain
  have performs : ∀ {s : Session TextBackend}, s.stream.source = ahead.stream.source →
      s.stream.drain.1 = some true → s.perform .drain = (.flag true, { s with stream := s.stream.drain.2 }) := by
    intro s source answer
    obtain ⟨ps, packets⟩ := paired.steady.inOrder.source
    have closed : s.stream.source.isOpen = false := by
      rw [source, packets]
      rfl
    cases drained : s.stream.drain with
    | mk done stream =>
        rw [drained] at answer
        simp [Session.perform, closed, drained, show done = some true from answer]
  obtain ⟨left, right, next⟩ := paired.step_alike (performs paired.beside.source (same.trans done))
    (performs rfl done) beside steady (Stream.undisturbed_drain _)
    ((Stream.undisturbed_drain _).reserved.trans paired.unreserved)
  exact ⟨left.trans right.symm, next⟩

theorem step_reset (paired : Paired plain ahead) :
    (plain.step .reset).1 = (ahead.step .reset).1 ∧
      ((ahead.step .reset).2.Overflowed ∨ Paired (plain.step .reset).2 (ahead.step .reset).2) := by
  obtain ⟨p, a, left, right, steady, same, reserved, beside⟩ := paired.beside.reset paired.steady paired.idle
  have performs : ∀ {s : Session TextBackend} {t : Stream TextBackend}, s.stream.reset = .ok t →
      s.perform .reset = (.nothing, { s with stream := t }) := by
    intro s t reset
    simp [Session.perform, reset, Session.after]
  obtain ⟨left, right, next⟩ := paired.step_alike (performs left) (performs right) beside steady same
    (reserved.trans paired.unreserved)
  exact ⟨left.trans right.symm, next⟩

theorem step_text (paired : Paired plain ahead) (pts : Binary64) :
    (plain.step (.text pts)).1 = (ahead.step (.text pts)).1 ∧
      ((ahead.step (.text pts)).2.Overflowed ∨ Paired (plain.step (.text pts)).2 (ahead.step (.text pts)).2) := by
  obtain ⟨same, beside⟩ := paired.beside.text paired.idle pts
  have performs : ∀ s : Session TextBackend,
      s.perform (.text pts) = (.text (s.stream.text pts).1, { s with stream := (s.stream.text pts).2 }) :=
    fun _ => rfl
  obtain ⟨left, right, next⟩ := paired.step_alike (performs plain) (performs ahead) beside
    (paired.steady.text pts) (Stream.undisturbed_text pts _)
    ((Stream.undisturbed_text pts _).reserved.trans paired.unreserved)
  exact ⟨left.trans ((congrArg Answer.text same).trans right.symm), next⟩

/-- A frame is shown on both sides, and given back. -/
theorem display (paired : Paired plain ahead) (g : Geometry) (pts : Binary64) :
    (∃ op, (ahead.step (.acquire g pts)).1 = .fault (.overflow op)) ∨
      (ahead.step (.acquire g pts)).2.Overflowed ∨
      ((Action.acquire g pts).Agree (plain.step (.acquire g pts)).1 (ahead.step (.acquire g pts)).1 ∧
        ((plain.step (.acquire g pts)).2.step .release).1 = ((ahead.step (.acquire g pts)).2.step .release).1 ∧
        (((ahead.step (.acquire g pts)).2.step .release).2.Overflowed ∨
          Paired ((plain.step (.acquire g pts)).2.step .release).2
            ((ahead.step (.acquire g pts)).2.step .release).2)) := by
  obtain ⟨heldPlain, heldAhead⟩ := paired.nothingHeld
  rw [Session.step_of_free heldPlain, Session.step_of_free heldAhead]
  obtain ⟨op, answer⟩ | ⟨f, f', hold, p, a, left, right, content, reserved, steady, worker, holds, beside⟩ :=
    paired.beside.acquire paired.steady paired.idle paired.unreserved paired.free g pts
  · refine .inl ⟨op, ?_⟩
    cases acquired : ahead.stream.acquire g pts with
    | mk result t =>
        rw [acquired] at answer
        simp [Session.perform, Session.acquire, acquired, show result = .fault (.overflow op) from answer]
  · have left' : plain.perform (.acquire g pts) =
        (.frame ⟨pts, f, .reserved⟩, ⟨p, some ⟨pts, f, .reserved⟩⟩) := by
      simp [Session.perform, Session.acquire, left]
    have right' : ahead.perform (.acquire g pts) = (.frame ⟨pts, f', hold⟩, ⟨a, some ⟨pts, f', hold⟩⟩) := by
      simp [Session.perform, Session.acquire, right]
    rw [left', right']
    have running := worker.trans paired.running
    have beside' := beside.settle steady
    have still : p.settle = p := Stream.settle_of_not_running (by rw [beside.alone]; simp)
    obtain ⟨steady', holds', ⟨running', -⟩ | overflowed⟩ := steady.settle running holds
    · refine .inr (.inr ⟨⟨_, _, rfl, rfl, rfl, rfl, content⟩, ?_⟩)
      obtain ⟨t, released, steady'', kept, worker', holds''⟩ := steady'.release (f := ⟨pts, f', hold⟩) holds'
      have given : p.settle.release ⟨pts, f, .reserved⟩ = .ok { p.settle with reserved := false } :=
        if_pos (by rw [still]; exact reserved)
      rw [Session.step_release rfl given, Session.step_release rfl released]
      exact ⟨rfl, settle (beside'.kept ⟨rfl, rfl, rfl, rfl, rfl, rfl, .refl _⟩ kept rfl rfl) steady''
        (worker'.trans running') holds'' rfl⟩
    · exact .inr (.inl overflowed)

/-- A call on both sides. -/
theorem play (paired : Paired plain ahead) (c : Playback) :
    (∃ op, .fault (.overflow op) ∈ (ahead.run c.actions).1) ∨ (ahead.run c.actions).2.Overflowed ∨
      (AnswersAgree c.actions (plain.run c.actions).1 (ahead.run c.actions).1 ∧
        Paired (plain.run c.actions).2 (ahead.run c.actions).2) := by
  have single : ∀ {a : Action}, a.Agree (plain.step a).1 (ahead.step a).1 →
      ((ahead.step a).2.Overflowed ∨ Paired (plain.step a).2 (ahead.step a).2) →
      (ahead.run [a]).2.Overflowed ∨ (AnswersAgree [a] (plain.run [a]).1 (ahead.run [a]).1 ∧
        Paired (plain.run [a]).2 (ahead.run [a]).2) :=
    fun agree next => next.imp id fun paired' => ⟨.cons agree .nil, paired'⟩
  cases c with
  | prepare pts => exact .inr (single (paired.step_prepare pts).1 (paired.step_prepare pts).2)
  | drain => exact .inr (single paired.step_drain.1 paired.step_drain.2)
  | reset => exact .inr (single paired.step_reset.1 paired.step_reset.2)
  | text pts => exact .inr (single (paired.step_text pts).1 (paired.step_text pts).2)
  | display g pts =>
      obtain ⟨op, answer⟩ | overflowed | ⟨agree, given, next⟩ := paired.display g pts
      · exact .inl ⟨op, answer ▸ List.mem_cons_self⟩
      · have stays : ((ahead.step (.acquire g pts)).2.run [.release]).2.Overflowed := overflowed.run (by simp)
        exact .inr (.inl stays)
      · exact .inr (next.imp id fun paired' => ⟨.cons agree (.cons given .nil), paired'⟩)

/-- All calls of a run without an overflow. -/
theorem run (paired : Paired plain ahead) (calls : List Playback)
    (answers : ∀ op, .fault (.overflow op) ∉ (ahead.play calls).1) (lasts : ¬ (ahead.play calls).2.Overflowed) :
    AnswersAgree (calls.flatMap Playback.actions) (plain.play calls).1 (ahead.play calls).1 := by
  induction calls generalizing plain ahead with
  | nil => exact .nil
  | cons c calls ih =>
      rw [Session.play, List.flatMap_cons, Session.run_append] at answers lasts
      rw [Session.play, Session.play, List.flatMap_cons, Session.run_append, Session.run_append]
      obtain ⟨op, answer⟩ | overflowed | ⟨agree, paired'⟩ := paired.play c
      · exact absurd (List.mem_append_left _ answer) (answers op)
      · refine absurd (overflowed.run fun pts g member => ?_) lasts
        obtain ⟨c', -, inside⟩ := List.mem_flatMap.1 member
        exact c'.alone pts g inside
      · exact agree.append (ih paired' (fun op member => answers op (List.mem_append_right _ member)) lasts)

/-- Two sessions opened on packets in order are paired. -/
theorem opened {codec : Codec} {ps : List Packet} (numbers : ∀ t ∈ ps.filterMap (·.pts), t.isNaN = false)
    (sorted : (ps.filterMap (·.pts)).Pairwise (· ≤ ·)) (visible : Bool) {count : UInt64} (positive : 0 < count) :
    Paired (.opened codec (.ofPackets ps) { visible } {})
      (.opened codec (.ofPackets ps) { renderAhead := count, visible } {}) := by
  have running : (Stream.ofBackend codec (.ofPackets ps) { renderAhead := count, visible }
      ({} : TextBackend)).worker = .running := by
    simp [Stream.ofBackend, Backend.accepts, positive]
  have threaded : (Stream.ofBackend codec (.ofPackets ps) { renderAhead := count, visible }
      ({} : TextBackend)).threaded = true := by
    rw [Stream.threaded, running]
    rfl
  have awaits : TextBackend.Awaits {} ps := {
    numbers := fun p member t time => numbers t (List.mem_filterMap.2 ⟨p, member, time⟩)
    sorted := (List.pairwise_filterMap.1 sorted).imp fun le s t first second => le s first t second
    after := fun _ _ _ _ _ member => absurd member List.not_mem_nil }
  have inOrder : (Stream.ofBackend codec (.ofPackets ps) { renderAhead := count, visible }
      ({} : TextBackend)).InOrder := {
    source := ⟨ps, rfl⟩
    awaits := (Source.packets_ofPackets ps).symm ▸ awaits
    seen := by rintro _ ⟨⟩
    finished := by rintro ⟨⟩
    queued := by rintro _ ⟨⟩
    drew := by rintro _ _ _ ⟨⟩ }
  exact {
    nothingHeld := ⟨rfl, rfl⟩
    beside := ⟨rfl, rfl, rfl, rfl, rfl, rfl, rfl, .refl _⟩
    steady := ⟨⟨[], Session.opened_faithful threaded⟩, inOrder, rfl⟩
    running
    idle := ⟨rfl, by rintro _ _ ⟨⟩⟩
    free := ⟨rfl, rfl⟩
    unreserved := rfl }

end Paired

/-- Text opens with a codec it knows. -/
theorem TextBackend.open?_eq {codec : Codec} (known : codec.name ∈ codecs) (source : Source) {options : Options}
    (few : options.renderAhead.toNat ≤ Options.mostAhead) :
    (Stream.open? codec source options [({} : TextBackend)]).2 =
      .ok (Session.opened codec source options ({} : TextBackend)).stream := by
  have checked : options.check = .ok () := if_neg (Nat.not_lt.2 few)
  have taken : Backend.init codec ({} : TextBackend) = (.ok (), {}) :=
    if_pos (List.contains_iff_mem.2 known)
  simp only [Stream.open?, checked, openFirst, taken]
  rfl

/-- On packets in order, a session of text with a worker answers like one without. -/
theorem rendering_ahead_is_transparent {codec : Codec} (known : codec.name ∈ TextBackend.codecs)
    {ps : List Packet} (numbers : ∀ t ∈ ps.filterMap (·.pts), t.isNaN = false)
    (sorted : (ps.filterMap (·.pts)).Pairwise (· ≤ ·)) (visible : Bool) {count : UInt64}
    (positive : 0 < count) (few : count ≤ 500) :
    ∃ plain ahead : Stream TextBackend,
      (Stream.open? codec (.ofPackets ps) { renderAhead := 0, visible } [{}]).2 = .ok plain ∧
      (Stream.open? codec (.ofPackets ps) { renderAhead := count, visible } [{}]).2 = .ok ahead ∧
      ∀ calls : List Playback,
        (∀ op, .fault (.overflow op) ∉ (Session.play ⟨ahead, none⟩ calls).1) →
        ¬ (Session.play ⟨ahead, none⟩ calls).2.Overflowed →
        AnswersAgree (calls.flatMap Playback.actions) (Session.play ⟨plain, none⟩ calls).1
          (Session.play ⟨ahead, none⟩ calls).1 :=
  ⟨_, _, TextBackend.open?_eq known _ (Nat.zero_le _),
    TextBackend.open?_eq known _ (UInt64.le_iff_toNat_le.1 few),
    fun calls => (Paired.opened numbers sorted visible positive).run calls⟩

/-- A line without an end, a packet without a timestamp, and a blank line that ends the first. -/
def linePackets : List Packet :=
  [⟨some .zero, none, "i".toUTF8.data⟩, ⟨none, none, #[]⟩, ⟨some .one, none, #[]⟩]

def lineSession (count : UInt64) : Session TextBackend :=
  .opened ⟨"text", #[]⟩ (.ofPackets linePackets) { renderAhead := count } {}

/-- The second frame is rendered ahead if there is a worker. -/
def lineCalls : List Playback :=
  [.display ⟨24, 120, {}, .one⟩ .zero, .prepare .zero, .display ⟨24, 120, {}, .one⟩ .zero, .drain, .text .one]

theorem rendering_ahead_is_transparent_line :
    (∀ t ∈ linePackets.filterMap (·.pts), t.isNaN = false) ∧
      (linePackets.filterMap (·.pts)).Pairwise (· ≤ ·) ∧
      (∃ f, .frame f ∈ ((lineSession 2).play lineCalls).1 ∧ f.isCached = true) ∧
      (∀ op, .fault (.overflow op) ∉ ((lineSession 2).play lineCalls).1) ∧
      ¬ ((lineSession 2).play lineCalls).2.Overflowed ∧
      AnswersAgree (lineCalls.flatMap Playback.actions) ((lineSession 0).play lineCalls).1
        ((lineSession 2).play lineCalls).1 := by
  have numbers : ∀ t ∈ linePackets.filterMap (·.pts), t.isNaN = false := by decide +kernel
  have sorted : (linePackets.filterMap (·.pts)).Pairwise (· ≤ ·) := by decide +kernel
  have known : (⟨"text", #[]⟩ : Codec).name ∈ TextBackend.codecs := List.mem_cons_self
  have positive : (0 : UInt64) < 2 := by decide
  have few : (2 : UInt64) ≤ 500 := by decide
  have answered : ((lineSession 2).play lineCalls).1.all (fun | .fault _ => false | _ => true) = true := by
    decide +kernel
  have answers : ∀ op, .fault (.overflow op) ∉ ((lineSession 2).play lineCalls).1 :=
    fun op member => absurd (List.all_eq_true.1 answered _ member) (by simp)
  have running : ((lineSession 2).play lineCalls).2.stream.worker = .running := by decide +kernel
  have lasts : ¬ ((lineSession 2).play lineCalls).2.Overflowed :=
    fun ⟨op, crashed⟩ => absurd (running.symm.trans crashed) (by simp)
  have cached : ((lineSession 2).play lineCalls).1.any (·.cached?.isSome) = true := by decide +kernel
  obtain ⟨plain, ahead, left, right, agree⟩ :=
    rendering_ahead_is_transparent known numbers sorted true positive few
  obtain rfl := Except.ok.inj (left.symm.trans (TextBackend.open?_eq known _ (Nat.zero_le _)))
  obtain rfl := Except.ok.inj (right.symm.trans (TextBackend.open?_eq known _ (by decide)))
  obtain ⟨answer, member, some⟩ := List.any_eq_true.1 cached
  obtain ⟨f, cachedAs⟩ := Option.isSome_iff_exists.1 some
  obtain ⟨rfl, isCached⟩ := Answer.eq_of_cached? cachedAs
  exact ⟨numbers, sorted, ⟨f, member, isCached⟩, answers, lasts, agree lineCalls answers lasts⟩

end Subtitles
