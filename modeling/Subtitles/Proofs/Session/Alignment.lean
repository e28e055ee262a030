/-
# Proofs.Session.Alignment: whether a command to align is honoured

A command to align text changes all that is rendered from then on, and leaves alone what was
rendered ahead. The log tells one from the other. With everything decoded before, every log from the
command on recalls the same state (`AlignedSince.recalled_eq`). A frame rendered on demand shows that
state, and so does one that was rendered ahead after the command (`Aligned.draws`). An older one
comes from the cache only while nothing renewed that, and shows the alignment of its time
(`frames_follow_alignment`).

`stale_alignment` is such a frame: the line was asked for at the top, and is shown at the bottom.
-/
import Subtitles.Proofs.Session.Preload
import Subtitles.Proofs.Stream.OnDemand
import Subtitles.Proofs.Stream.Steady
import Subtitles.Proofs.TextBackend.Recall
namespace Subtitles

set_option autoImplicit false

/-! ## Frames on demand -/

namespace Stream

variable {σ : Type} [Backend σ] {s t : Stream σ} {g : Geometry} {pts : Binary64} {f : HeldFrame}

omit [Backend σ] in
theorem resume_hit {h : Handle} (found : (s.resume pts h).1 = .hit f) : f.isCached = true := by
  unfold resume at found
  split at found
  · cases found
    rfl
  · split at found
    · cases found
    · split at found <;> cases found

omit [Backend σ] in
/-- What is looked up comes from the cache of a worker. -/
theorem lookUp_hit (found : (s.lookUp g pts).1 = .hit f) : f.isCached = true ∧ s.threaded = true := by
  unfold lookUp at found
  split at found
  · cases found
  · next threaded =>
      refine ⟨?_, by simpa using threaded⟩
      split at found
      · cases found
      · split at found
        · cases found
        · split at found
          · cases found
          · split at found
            · cases found
            · cases found
            · exact resume_hit found

/-- Any other frame is rendered on the spot. -/
theorem frame_of_acquire (acquired : s.acquire g pts = (.frame f, t)) :
    (f.isCached = true ∧ s.threaded = true) ∨
      (f.isCached = false ∧ (Backend.render g pts s.backend.state).1 = .ok f.frame) := by
  obtain ⟨geometry, cache, current, looked⟩ := lookUp_frame g pts s
  have hit : ∀ k, (s.lookUp g pts).1 = .hit k → k.isCached = true ∧ s.threaded = true := fun k => lookUp_hit
  unfold acquire at acquired
  generalize s.lookUp g pts = result at looked hit acquired
  obtain ⟨answer, r⟩ := result
  cases answer with
  | hit k =>
      obtain rfl := Acquired.frame.inj (congrArg Prod.fst acquired)
      exact .inl (hit k rfl)
  | miss =>
      dsimp only at looked
      subst looked
      obtain ⟨-, onDemand, drawn, -⟩ := renderOnDemand_frame acquired
      exact .inr ⟨onDemand, drawn⟩
  | waiting h => cases congrArg Prod.fst acquired
  | refused fault => cases congrArg Prod.fst acquired

end Stream

/-! ## The log after a command -/

theorem Call.top?_eq_none {c : Call} (other : ∀ v, c.command? ≠ some (.top v)) : c.top? = none := by
  cases c with
  | control command =>
      cases command with
      | top v => exact absurd rfl (other v)
      | _ => rfl
  | _ => rfl

theorem Action.eq_of_command?_eq_top {a : Action} {v : Bool} (passed : a.command? = some (.top v)) :
    a = .control (.top v) := by
  cases a with
  | control command => rw [Option.some.inj passed]
  | video params => cases passed
  | _ => cases passed

/-- The latest calls neither decode nor align, and before them comes the command. -/
def AlignedSince (v : Bool) (log calls : List Call) : Prop :=
  ∃ new, calls = new ++ .control (.top v) :: log ∧ ∀ c ∈ new, c.packet? = none ∧ c.top? = none

namespace AlignedSince

variable {v : Bool} {log calls older : List Call} {s t : Stream TextBackend} {commands : List Command}

theorem suffix (since : AlignedSince v log calls) : .control (.top v) :: log <:+ calls := by
  obtain ⟨new, parts, -⟩ := since
  exact ⟨new, parts.symm⟩

theorem grows (since : AlignedSince v log s.backend.calls) (grows : Stream.Grows commands s t)
    (others : ∀ w, .top w ∉ commands) : AlignedSince v log t.backend.calls := by
  obtain ⟨new, parts, quiet⟩ := since
  obtain ⟨-, later, grown, quietLater⟩ := grows
  refine ⟨later ++ new, by rw [grown, parts, List.append_assoc], List.forall_mem_append.2 ⟨fun c member => ?_, quiet⟩⟩
  obtain ⟨decodes, passes⟩ := quietLater c member
  exact ⟨decodes, Call.top?_eq_none fun w passed => others w (passes _ passed)⟩

/-- From the command on every log recalls the same. -/
theorem recalled_eq (since : AlignedSince v log calls) (after : .control (.top v) :: log <:+ older)
    (logged : older <:+ calls) : TextBackend.recalled older = TextBackend.recalled (.control (.top v) :: log) := by
  obtain ⟨new, rfl, quiet⟩ := since
  obtain ⟨between, rfl⟩ := after
  obtain ⟨newest, parts⟩ := logged
  rw [← List.append_assoc] at parts
  obtain rfl := List.append_cancel_right parts
  exact TextBackend.recalled_append (fun c member => quiet c (List.mem_append_right _ member)) _

end AlignedSince

namespace Session

variable {s t start : Session TextBackend} {v : Bool} {e : TextBackend} {log : List Call} {actions : List Action}
  {g : Geometry} {pts : Binary64} {f : HeldFrame}

/-- The command came behind `log`, with the events of `e` decoded, and nothing is decoded or aligned after it. -/
structure Aligned (v : Bool) (e : TextBackend) (log : List Call) (s : Session TextBackend) : Prop where
  attended : s.stream.Attended {}
  preloaded : s.stream.Preloaded
  since : AlignedSince v log s.stream.backend.calls
  recalls : (TextBackend.recalled (.control (.top v) :: log)).SameEvents { e with atTop := v }

theorem aligned_control {full : Session TextBackend} (attended : full.stream.Attended {})
    (preloaded : full.stream.Preloaded) (alone : ∀ pts g, .overtake pts g ∉ actions) (once : .drain ∉ actions)
    (ran : (full.run actions).2 = s) (applied : s.step (.control (.top v)) = (.reply .done, t)) :
    t.Aligned v full.stream.backend.state s.stream.backend.calls := by
  have grown := run_grows preloaded alone once
  have attended' := run_attended attended alone
  rw [ran] at grown attended'
  have stepped := step_attended attended' (a := .control (.top v)) nofun
  have turned := turn_grows grown.preloaded (a := .control (.top v)) nofun nofun
  rw [applied] at stepped
  rw [step_eq (goesOn_of_answer applied nofun)] at applied
  obtain ⟨-, rfl⟩ := Prod.mk.inj applied
  have settled : Stream.Grows [] (s.turn (.control (.top v))) (s.turn (.control (.top v))).settle :=
    turned.preloaded.settle
  have told := (TextBackend.sameEvents_recalled attended.served).symm
  refine ⟨stepped, settled.preloaded, ?_, ?_⟩
  · exact AlignedSince.grows ⟨[], rfl, List.forall_mem_nil _⟩ settled fun _ => List.not_mem_nil
  · rw [TextBackend.recalled_top, TextBackend.recalled, grown.decoded_eq]
    exact ⟨told.events, told.nextId, rfl⟩

namespace Aligned

theorem run (aligned : s.Aligned v e log) (alone : ∀ pts g, .overtake pts g ∉ actions) (once : .drain ∉ actions)
    (last : ∀ w, .control (.top w) ∉ actions) : (s.run actions).2.Aligned v e log := by
  have grown := run_grows aligned.preloaded alone once
  refine ⟨run_attended aligned.attended alone, grown.preloaded, aligned.since.grows grown fun w passed => ?_,
    aligned.recalls⟩
  obtain ⟨a, member, passes⟩ := List.mem_filterMap.1 passed
  exact last w (Action.eq_of_command?_eq_top passes ▸ member)

/-- What was rendered after the command is aligned as it says. -/
theorem draws {frame : Frame} {older : List Call} (aligned : s.Aligned v e log)
    (after : .control (.top v) :: log <:+ older) (logged : older <:+ s.stream.backend.calls)
    (draws : (TextBackend.recalled older).Draws g pts frame) : { e with atTop := v }.Draws g pts frame := by
  rw [aligned.since.recalled_eq after logged] at draws
  exact draws.of_sameEvents aligned.recalls

theorem draws_demand (aligned : s.Aligned v e log)
    (drew : (Backend.render g pts s.stream.backend.state).1 = .ok f.frame) : { e with atTop := v }.Draws g pts f.frame := by
  have draws := (TextBackend.render_cases s.stream.backend.state g pts).1 f.frame drew
  exact aligned.draws aligned.since.suffix (List.suffix_refl _)
    (draws.of_sameEvents (TextBackend.sameEvents_recalled aligned.attended.served))

end Aligned

/-- A log of a session only grows. -/
theorem calls_perform (orderly : s.stream.Orderly {} s.stream.backend.calls) {a : Action}
    (alone : ∀ pts g, .overtake pts g ∉ actions ++ [a]) :
    s.stream.backend.calls <:+ ((s.run actions).2.perform a).2.stream.backend.calls := by
  have before := run_orderly orderly Stream.soundChanges_text fun pts g member =>
    alone pts g (List.mem_append_left _ member)
  rw [stream_perform]
  exact (turn_orderly before fun pts g same => alone pts g (by simp [same])).grown

/-- A cached frame shows what the log recalled when it was rendered ahead; and if that was before the run,
nothing renewed the cache in it. -/
theorem cached_recalls (orderly : s.stream.Orderly {} s.stream.backend.calls)
    (alone : ∀ pts g, .overtake pts g ∉ actions)
    (answer : ((s.run actions).2.step (.acquire g pts)).1 = .frame f) (cached : f.isCached = true) :
    ∃ p g' got older, .render .ahead p g' got :: older <:+ (s.run actions).2.stream.backend.calls ∧
      p.Same pts ∧ g'.Same g ∧ got.SameContent f.frame ∧ (TextBackend.recalled older).Draws g pts f.frame ∧
      (.render .ahead p g' got :: older <:+ s.stream.backend.calls →
        ∀ earlier a rest, actions ++ [.acquire g pts] = earlier ++ a :: rest → ¬ (s.run earlier).2.Renews a) := by
  obtain ⟨since, faithful⟩ := orderly.faithful
  obtain ⟨newer, p, g', got, older, calls, time, geometry, content, renewals⟩ :=
    run_cached faithful Stream.soundChanges_text alone answer cached
  have logged : .render .ahead p g' got :: older <:+ (s.run actions).2.stream.backend.calls := ⟨newer, calls.symm⟩
  obtain ⟨since', faithful'⟩ := (run_orderly orderly Stream.soundChanges_text alone).faithful
  have drew := TextBackend.draws_of_logged faithful'.served logged
  obtain ⟨parts, drawn, made⟩ := drew.congr geometry rfl (TextBackend.active_congr time _)
  refine ⟨p, g', got, older, logged, time, geometry, content, ⟨parts, drawn, made.of_sameContent content⟩, ?_⟩
  intro before earlier a rest parts renews
  have others : ∀ pts g, .overtake pts g ∉ earlier ++ [a] := by
    intro pts' g' member
    have among : .overtake pts' g' ∈ actions ++ [.acquire g pts] := by
      rw [parts, List.append_cons]
      exact List.mem_append_left _ member
    exact alone pts' g' (by simpa using among)
  -- The renewal came after the render, and is said to have come before it.
  have longer := (before.trans (calls_perform orderly others)).trans (renewals earlier a rest parts renews)
  exact absurd longer.length_le (by simp)

end Session

/-! ## Frames after a command -/

/-- A command to align text that is answered, with all packets read and decoded before, moves every frame
from then on, until the next such command. Only a frame from the cache may come from before it: one that was
rendered ahead for its time and geometry, and shows the alignment of then, while no reset and no other geometry
came since. -/
theorem frames_follow_alignment {codec : Codec} {source : Source} {options : Options} {before mid later : List Action}
    (alone : ∀ pts g, .overtake pts g ∉ before ++ mid ++ later) (once : .drain ∉ mid ++ later) {v : Bool}
    (last : ∀ w, .control (.top w) ∉ later) {start full placed : Session TextBackend}
    (began : ((Session.opened codec source options ({} : TextBackend)).run before).2 = start)
    (drained : start.step .drain = (.flag true, full)) (survives : ∀ fault, full.stream.worker ≠ .crashed fault)
    (applied : (full.run mid).2.step (.control (.top v)) = (.reply .done, placed))
    {g : Geometry} {pts : Binary64} {f : HeldFrame}
    (answer : ((placed.run later).2.step (.acquire g pts)).1 = .frame f) :
    (∃ parts, TextBackend.drawn (full.stream.backend.state.active pts) g v = .ok parts ∧
        TextBackend.MadeOf f.frame parts) ∨
      f.isCached = true ∧
        (∃ p g' got older, .render .ahead p g' got :: older <:+ (full.run mid).2.stream.backend.calls ∧
          p.Same pts ∧ g'.Same g ∧ got.SameContent f.frame ∧ (TextBackend.recalled older).Draws g pts f.frame) ∧
        ∀ earlier a rest, later ++ [.acquire g pts] = earlier ++ a :: rest → ¬ (placed.run earlier).2.Renews a := by
  have aloneBefore : ∀ pts g, .overtake pts g ∉ before := fun pts g member => alone pts g (by simp [member])
  have aloneMid : ∀ pts g, .overtake pts g ∉ mid := fun pts g member => alone pts g (by simp [member])
  have aloneLater : ∀ pts g, .overtake pts g ∉ later := fun pts g member => alone pts g (by simp [member])
  have attended : start.stream.Attended {} := began ▸ Session.run_attended (Session.opened_attended ..) aloneBefore
  have preloaded := Session.preloaded_drain attended drained survives
  have attendedFull : full.stream.Attended {} := by
    have stepped := Session.step_attended attended (a := .drain) nofun
    rwa [drained] at stepped
  have aligned := Session.aligned_control attendedFull preloaded aloneMid
    (fun member => once (List.mem_append_left _ member)) rfl applied
  have alignedThen := aligned.run aloneLater (fun member => once (List.mem_append_right _ member)) last
  obtain ⟨t, acquired, -⟩ := Session.step_acquire (Prod.ext answer rfl)
  rcases Stream.frame_of_acquire acquired with ⟨cached, threaded⟩ | ⟨-, drew⟩
  swap
  · exact .inl (alignedThen.draws_demand drew)
  have whole : ((Session.opened codec source options ({} : TextBackend)).run
      (before ++ .drain :: (mid ++ [.control (.top v)]))).2 = placed := by
    simp only [Session.run_append, Session.run, began, drained, applied]
  have aloneWhole : ∀ pts g, .overtake pts g ∉ before ++ .drain :: (mid ++ [.control (.top v)]) := by
    intro pts g
    simp [aloneBefore, aloneMid]
  have threaded' : (Session.opened codec source options ({} : TextBackend)).stream.threaded = true :=
    Session.threaded_of_run aloneWhole (whole ▸ Session.threaded_of_run aloneLater threaded)
  have orderly : placed.stream.Orderly {} [] :=
    whole ▸ Session.run_orderly (Session.opened_orderly threaded') Stream.soundChanges_text aloneWhole
  obtain ⟨p, g', got, older, logged, time, geometry, content, draws, unrenewed⟩ :=
    Session.cached_recalls ⟨orderly.faithful, orderly.chained, List.suffix_refl _⟩ aloneLater answer cached
  -- Both the render and the command are in the log, one before the other.
  rcases List.suffix_or_suffix_of_suffix logged alignedThen.since.suffix with isOlder | isNewer
  · have older' := (List.suffix_cons_iff.1 isOlder).resolve_left (by simp)
    exact .inr ⟨cached, ⟨p, g', got, older, older', time, geometry, content, draws⟩,
      unrenewed (isOlder.trans aligned.since.suffix)⟩
  · have after := (List.suffix_cons_iff.1 isNewer).resolve_left (by simp)
    exact .inl (alignedThen.draws after ((List.suffix_cons _ _).trans logged) draws)

/-- One line, and a worker for it. -/
def hiOpened : Session TextBackend := .opened ⟨"text", #[]⟩ (.ofPackets [hiPacket]) { renderAhead := 4 } {}

def hiFull : Session TextBackend := (hiOpened.step .drain).2

/-- A frame on demand tells the geometry, and another time is rendered ahead. -/
def hiAhead : List Action := [.acquire hiGeometry (.ofNat 3), .release, .request (.ofNat 4)]

/-- Now the line is to be at the top. -/
def hiTop : Session TextBackend := ((hiFull.run hiAhead).2.step (.control (.top true))).2

/-- After a reset the time is rendered ahead again, and the line is at the top. -/
theorem frames_follow_alignment_hi :
    hiOpened.step .drain = (.flag true, hiFull) ∧ (∀ fault, hiFull.stream.worker ≠ .crashed fault) ∧
      (hiFull.run hiAhead).2.step (.control (.top true)) = (.reply .done, hiTop) ∧
      ∃ f, ((hiTop.run [.reset, .request (.ofNat 4)]).2.step (.acquire hiGeometry (.ofNat 4))).1 = .frame f ∧
        f.isCached = true ∧
        ∃ parts, TextBackend.drawn (hiFull.stream.backend.state.active (.ofNat 4)) hiGeometry true = .ok parts ∧
          TextBackend.MadeOf f.frame parts := by
  have drained : hiOpened.step .drain = (.flag true, hiFull) := Prod.ext (by decide +kernel) (by rw [hiFull])
  have running : hiFull.stream.worker = .running := by decide +kernel
  have survives : ∀ fault, hiFull.stream.worker ≠ .crashed fault := by
    rw [running]
    exact nofun
  have applied : (hiFull.run hiAhead).2.step (.control (.top true)) = (.reply .done, hiTop) :=
    Prod.ext (by decide +kernel) (by rw [hiTop])
  have free : hiTop.holdsBackend = false := by decide +kernel
  have renews : ∀ s : Session TextBackend, s.holdsBackend = false → (s.run []).2.Renews .reset := fun _ free => free
  have shown : ((hiTop.run [.reset, .request (.ofNat 4)]).2.step
      (.acquire hiGeometry (.ofNat 4))).1.cached?.isSome = true := by
    decide +kernel
  obtain ⟨f, shown⟩ := Option.isSome_iff_exists.1 shown
  obtain ⟨answer, cached⟩ := Answer.eq_of_cached? shown
  refine ⟨drained, survives, applied, f, answer, cached, ?_⟩
  have began : ((Session.opened ⟨"text", #[]⟩ (.ofPackets [hiPacket]) { renderAhead := 4 } ({} : TextBackend)).run []).2 =
      hiOpened := rfl
  have alone : ∀ pts g, Action.overtake pts g ∉ [] ++ hiAhead ++ [.reset, .request (.ofNat 4)] := by simp [hiAhead]
  have once : Action.drain ∉ hiAhead ++ [.reset, .request (.ofNat 4)] := by simp [hiAhead]
  have last : ∀ w, Action.control (.top w) ∉ [.reset, .request (.ofNat 4)] := by simp
  obtain honoured | ⟨-, -, unrenewed⟩ := frames_follow_alignment alone once last began drained survives applied answer
  · exact honoured
  · exact absurd (renews hiTop free) (unrenewed [] .reset [.request (.ofNat 4), .acquire hiGeometry (.ofNat 4)] rfl)

/-- Without the reset the frame comes from before the command, with the line still at the bottom. -/
theorem stale_alignment :
    hiOpened.step .drain = (.flag true, hiFull) ∧ (∀ fault, hiFull.stream.worker ≠ .crashed fault) ∧
      (hiFull.run hiAhead).2.step (.control (.top true)) = (.reply .done, hiTop) ∧
      ∃ f parts, (hiTop.step (.acquire hiGeometry (.ofNat 4))).1 = .frame f ∧
        TextBackend.drawn (hiFull.stream.backend.state.active (.ofNat 4)) hiGeometry true = .ok parts ∧
        ¬ TextBackend.MadeOf f.frame parts := by
  have running : hiFull.stream.worker = .running := by decide +kernel
  have shown : (hiTop.step (.acquire hiGeometry (.ofNat 4))).1.cached?.any
      (fun f => f.frame.parts.map (·.y) == [83]) = true := by
    decide +kernel
  have drawn : (TextBackend.drawn (hiFull.stream.backend.state.active (.ofNat 4)) hiGeometry true).toOption.any
      (fun parts => parts.map (·.y) == [2]) = true := by
    decide +kernel
  obtain ⟨f, shown, bottom⟩ := (Option.any_eq_true ..).1 shown
  obtain ⟨answer, -⟩ := Answer.eq_of_cached? shown
  cases told : TextBackend.drawn (hiFull.stream.backend.state.active (.ofNat 4)) hiGeometry true with
  | error fault =>
      rw [told] at drawn
      cases drawn
  | ok parts =>
      rw [told] at drawn
      refine ⟨Prod.ext (by decide +kernel) (by rw [hiFull]), by rw [running]; exact nofun,
        Prod.ext (by decide +kernel) (by rw [hiTop]), f, parts, answer, rfl, fun made => ?_⟩
      have top : parts.map (·.y) = [2] := by simpa [Except.toOption] using drawn
      rw [← made.2, eq_of_beq bottom] at top
      exact absurd top (by decide)

end Subtitles
