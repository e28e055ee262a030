/-
# Proofs.Session.VideoChanges: what the backend hears of the video

The parameters of the video come to the backend by two ways: as a change that the stream notes, and as
a command that it passes on unread. An action passes on the command it carries and no other, and the
worker passes on none (`Passes`), so what the stream noted last is told by the actions noted
(`lastVideo_run`). The backend hears of a change against that, and not against what it heard last
(`commands_step_video`).

So the stream tells changes right wherever the two agree, and only there; and they agree as long as no
command goes by unread (`video_changes_told`). `video_change_withheld` is a run after which they do not:
the backend keeps the parameters of the command for those of the video.
-/
import Subtitles.PictureBackend
import Subtitles.Proofs.Session.Preload
namespace Subtitles

set_option autoImplicit false

/-- The parameters of the video that a command carries. -/
def Command.video? : Command → Option VideoFormat
  | .video params => some params
  | _ => none

/-- The commands among calls, the latest first. -/
def commands (calls : List Call) : List Command := calls.filterMap Call.command?

/-- The parameters of the video that calls tell of, the latest first. -/
def toldVideos (calls : List Call) : List VideoFormat := (commands calls).filterMap Command.video?

/-- The parameters that an action has the stream note. -/
def Action.noted? : Action → Answer → Option VideoFormat
  | .video params, .nothing => some params
  | _, _ => none

theorem Action.eq_of_command?_eq_video {a : Action} {params : VideoFormat}
    (carried : a.command? = some (.video params)) (other : ∀ params, a ≠ .video params) :
    a = .control (.video params) := by
  cases a with
  | control command => rw [Option.some.inj carried]
  | video params => exact absurd rfl (other params)
  | _ => cases carried

theorem commands_append {new : List Call} (silent : ∀ c ∈ new, c.command? = none) (calls : List Call) :
    commands (new ++ calls) = commands calls := by
  rw [commands, List.filterMap_append, List.filterMap_eq_nil_iff.2 silent, List.nil_append]
  rfl

theorem commands_decodes (ps : List Packet) (calls : List Call) :
    commands ((ps.map Call.decode).reverse ++ calls) = commands calls := by
  refine commands_append (fun c member => ?_) calls
  obtain ⟨p, -, rfl⟩ := List.mem_map.1 (List.mem_reverse.1 member)
  rfl

variable {σ : Type} [Backend σ]

namespace Stream

variable {s t r : Stream σ} {cs ds : List Command}

/-- From `s` to `t` the backend got these commands, the latest first, and nothing was noted of the video. -/
structure Passes (cs : List Command) (s t : Stream σ) : Prop where
  noted : t.lastVideo = s.lastVideo
  log : commands t.backend.calls = cs ++ commands s.backend.calls

omit [Backend σ] in
theorem Passes.refl (s : Stream σ) : Passes [] s s := ⟨rfl, rfl⟩

omit [Backend σ] in
theorem Passes.trans (first : Passes cs s t) (second : Passes ds t r) : Passes (ds ++ cs) s r :=
  ⟨second.noted.trans first.noted, by rw [second.log, first.log, List.append_assoc]⟩

theorem passes_render (purpose : Purpose) (g : Geometry) (pts : Binary64) (noted : t.lastVideo = s.lastVideo)
    (log : t.backend = s.backend ∨ t.backend = (s.backend.render purpose g pts).2) : Passes [] s t := by
  refine ⟨noted, ?_⟩
  obtain same | rendered := log
  · rw [same]
    rfl
  · obtain ⟨new, grown, renders⟩ := s.backend.calls_render purpose g pts
    rw [rendered, grown]
    refine commands_append (fun c member => ?_) _
    obtain ⟨frame, rfl⟩ := renders c member
    rfl

/-- Packets bring no commands. -/
theorem passes_enter (ps : List Packet) (source : Source) (lastRead : Option Binary64) (drained : Bool) :
    Passes [] s (enter ps { s with source, lastRead, drained }) := by
  unfold enter
  split
  · exact ⟨rfl, rfl⟩
  · exact ⟨rfl, by rw [LoggedBackend.foldl_decode]; exact commands_decodes ps _⟩

omit [Backend σ] in
theorem passes_request (pts : Binary64) : Passes [] s (s.request pts) := by
  unfold request
  split <;> exact ⟨rfl, rfl⟩

theorem passes_prepare (pts : Binary64) : Passes [] s (s.prepare pts).2 := by
  obtain ⟨source, lastRead, ps, took⟩ := readUntil_enters pts s
  have read : Passes [] s (s.readUntil pts).2 := took ▸ passes_enter ps source lastRead s.drained
  show Passes [] s (if (s.readUntil pts).1 then _ else _)
  split
  · exact read.trans (passes_request pts)
  · exact read

theorem passes_drain (s : Stream σ) : Passes [] s s.drain.2 := by
  cases room : s.pushesBack with
  | true =>
      rw [drain_of_pushesBack room]
      exact .refl s
  | false =>
      cases isOpen : s.source.isOpen with
      | true =>
          have still : s.drain = (none, s) := by rw [drain, room, if_neg Bool.false_ne_true, if_pos isOpen]
          rw [still]
          exact .refl s
      | false =>
          obtain ⟨noted, log⟩ := passes_enter (s := s) s.source.untilEnd s.source.pastEnd s.lastRead s.drained
          rw [drain_eq room isOpen]
          exact ⟨noted, log⟩

theorem passes_acquire (g : Geometry) (pts : Binary64) : Passes [] s (s.acquire g pts).2 := by
  obtain ⟨geometry, cache, current, reserved, backend, acquired, log⟩ := acquire_frame g pts s
  rw [acquired]
  exact passes_render .demand g pts rfl log

omit [Backend σ] in
theorem passes_release {f : HeldFrame} (released : s.release f = .ok t) : Passes [] s t := by
  obtain ⟨h, cache, -, -, -, rfl⟩ | ⟨-, -, rfl⟩ := release_cases released <;> exact ⟨rfl, rfl⟩

/-- The worker passes on none. -/
theorem passes_round (round : Round s t) : Passes [] s t := by
  cases round with
  | decode _ _ =>
      refine ⟨rfl, ?_⟩
      show commands (s.pending.foldl (fun b p => b.decode p) s.backend).calls = _
      rw [LoggedBackend.foldl_decode]
      exact commands_decodes s.pending _
  | @render job pts running decoded next =>
      have noted : (s.carryOut job pts).lastVideo = s.lastVideo := by rw [carryOut_frame]
      exact passes_render .ahead s.geometry pts noted (carryOut_backend job pts s).2

theorem passes_settle (s : Stream σ) : Passes [] s s.settle :=
  settle_induction (P := Passes [] s) (.refl s) fun _ _ passed round => passed.trans (passes_round round)

end Stream

/-! ## Actions -/

namespace Session

variable {s : Session σ} {a : Action} {actions : List Action}

/-- Every action but a change of the video passes on the command it carries, and no other. -/
theorem turn_passes (alone : ∀ pts g, a ≠ .overtake pts g) (other : ∀ params, a ≠ .video params) :
    Stream.Passes a.command?.toList s.stream (s.turn a) := by
  cases a with
  | offer p =>
      rw [turn, Stream.offer]
      split
      · exact .refl _
      · have entered := Stream.passes_enter (s := s.stream) [p] s.stream.source s.stream.lastRead s.stream.drained
        rwa [Stream.enter_cons, Stream.enter_nil] at entered
  | request pts => exact Stream.passes_request pts
  | prepare pts => exact Stream.passes_prepare pts
  | drain =>
      rw [turn]
      split
      · exact .refl _
      · exact Stream.passes_drain _
  | text pts =>
      rw [turn, Stream.text]
      split <;> exact ⟨rfl, rfl⟩
  | control command => exact ⟨rfl, rfl⟩
  | select on => exact ⟨rfl, rfl⟩
  | video params => exact absurd rfl (other params)
  | reset =>
      obtain kept | reset := s.turn_reset_cases
      · rw [kept]
        exact .refl _
      · obtain ⟨cache, -, became⟩ := Stream.reset_cases reset
        rw [became]
        exact ⟨rfl, rfl⟩
  | acquire g pts => exact Stream.passes_acquire g pts
  | release =>
      obtain kept | ⟨f, -, released⟩ := s.turn_release_cases
      · rw [kept]
        exact .refl _
      · exact Stream.passes_release released
  | send p =>
      obtain kept | ⟨source, -, became⟩ := s.turn_send_cases p
      · rw [kept]
        exact .refl _
      · rw [became]
        exact ⟨rfl, rfl⟩
  | close => exact ⟨rfl, rfl⟩
  | overtake pts g => exact absurd rfl (alone pts g)

theorem step_passes (alone : ∀ pts g, a ≠ .overtake pts g) (other : ∀ params, a ≠ .video params) :
    ∃ cs, (∀ c ∈ cs, a.command? = some c) ∧ Stream.Passes cs s.stream (s.step a).2.stream := by
  cases waits : s.holdsBackend && a.needsBackend with
  | true =>
      rw [step_of_waits waits]
      exact ⟨[], List.forall_mem_nil _, .refl _⟩
  | false =>
      rw [step_eq waits]
      exact ⟨a.command?.toList, fun c => Option.mem_toList.1,
        (turn_passes alone other).trans (Stream.passes_settle _)⟩

/-- A change of the video is noted, and passed on if it differs from what was noted before. -/
theorem step_video (free : s.holdsBackend = false) (params : VideoFormat) :
    (s.step (.video params)).2.stream.lastVideo = some params ∧
      commands (s.step (.video params)).2.stream.backend.calls =
        if s.stream.lastVideo = some params then commands s.stream.backend.calls
        else .video params :: commands s.stream.backend.calls := by
  have goesOn : (s.holdsBackend && Action.needsBackend (.video params)) = false := by rw [free]; rfl
  obtain ⟨noted, log⟩ := Stream.passes_settle (s.turn (.video params))
  rw [step_eq goesOn]
  show (s.turn (.video params)).settle.lastVideo = _ ∧ commands (s.turn (.video params)).settle.backend.calls = _
  rw [noted, log, turn, Stream.noteVideo]
  split
  · next same => exact ⟨same, rfl⟩
  · exact ⟨rfl, rfl⟩

/-- Changes are told right where the backend heard last what was noted last, and only there. -/
theorem tells_iff (free : s.holdsBackend = false) :
    (∀ params, (toldVideos (s.step (.video params)).2.stream.backend.calls).head? = some params ∧
        ((toldVideos s.stream.backend.calls).head? = some params →
          commands (s.step (.video params)).2.stream.backend.calls = commands s.stream.backend.calls)) ↔
      (toldVideos s.stream.backend.calls).head? = s.stream.lastVideo := by
  have passed := fun params => (step_video free params).2
  constructor
  · intro right
    cases noted : s.stream.lastVideo with
    | some params =>
        have told := (right params).1
        rwa [toldVideos, passed, if_pos noted] at told
    | none =>
        -- Nothing was noted, so nothing is withheld, and a repetition would be heard.
        cases heard : (toldVideos s.stream.backend.calls).head? with
        | none => rfl
        | some params =>
            have silent := (right params).2 heard
            rw [passed, if_neg (by rw [noted]; exact nofun)] at silent
            exact absurd silent (List.cons_ne_self _ _)
  · intro agree params
    rw [toldVideos, passed, agree]
    split
    · next same => exact ⟨agree.trans same, fun _ => rfl⟩
    · next other => exact ⟨rfl, fun same => absurd same other⟩

theorem lastVideo_step (alone : ∀ pts g, a ≠ .overtake pts g) :
    (s.step a).2.stream.lastVideo = (a.noted? (s.step a).1).or s.stream.lastVideo := by
  by_cases video : ∃ params, a = .video params
  · obtain ⟨params, rfl⟩ := video
    cases free : s.holdsBackend with
    | true =>
        rw [step_of_waits (by rw [free]; rfl)]
        rfl
    | false =>
        have answered : (s.step (.video params)).1 = .nothing := by rw [step_eq (by rw [free]; rfl)]; rfl
        rw [(step_video free params).1, answered]
        rfl
  · have other : ∀ params, a ≠ .video params := fun params same => video ⟨params, same⟩
    obtain ⟨cs, -, passed⟩ := step_passes (s := s) alone other
    have nothing : a.noted? (s.step a).1 = none := by
      cases a with
      | video params => exact absurd rfl (other params)
      | _ => rfl
    rw [passed.noted, nothing]
    rfl

/-- What the stream has noted is what the last action told it that was not held up. -/
theorem lastVideo_run (alone : ∀ pts g, .overtake pts g ∉ actions) :
    (s.run actions).2.stream.lastVideo = (s.gathered Action.noted? actions).getLast?.or s.stream.lastVideo := by
  induction actions generalizing s with
  | nil => rfl
  | cons a rest ih =>
      have stepped := lastVideo_step (s := s) fun pts g same => alone pts g (same ▸ List.mem_cons_self)
      have ran := ih (s := (s.step a).2) fun pts g member => alone pts g (List.mem_cons_of_mem _ member)
      rw [run, gathered_cons, List.getLast?_append]
      dsimp only
      rw [ran, stepped, Option.or_assoc]
      congr 2
      cases a.noted? (s.step a).1 <;> rfl

/-- What was noted and what the backend heard last agree until a command goes by unread. -/
theorem told_run (alone : ∀ pts g, .overtake pts g ∉ actions)
    (unpassed : ∀ params, .control (.video params) ∉ actions)
    (told : (toldVideos s.stream.backend.calls).head? = s.stream.lastVideo) :
    (toldVideos (s.run actions).2.stream.backend.calls).head? = (s.run actions).2.stream.lastVideo := by
  refine run_induction (P := fun s => (toldVideos s.stream.backend.calls).head? = s.stream.lastVideo) told ?_
  intro s a member told
  by_cases video : ∃ params, a = .video params
  · obtain ⟨params, rfl⟩ := video
    cases free : s.holdsBackend with
    | true =>
        rw [step_of_waits (by rw [free]; rfl)]
        exact told
    | false =>
        obtain ⟨noted, log⟩ := step_video free params
        rw [noted, toldVideos, log]
        split
        · next same => exact told.trans same
        · rfl
  · have other : ∀ params, a ≠ .video params := fun params same => video ⟨params, same⟩
    obtain ⟨cs, carried, passed⟩ := step_passes (s := s) (fun pts g same => alone pts g (same ▸ member)) other
    have none : cs.filterMap Command.video? = [] := by
      refine List.filterMap_eq_nil_iff.2 fun c among => ?_
      have carries := carried c among
      cases c with
      | video params => exact absurd (Action.eq_of_command?_eq_video carries other ▸ member) (unpassed params)
      | _ => rfl
    rw [toldVideos, passed.log, List.filterMap_append, none, passed.noted]
    exact told

end Session

/-- Right after a change of the video the backend hears what the stream had not noted last, and hears nothing
otherwise. So every change leaves it with the parameters told, and none is told twice, exactly where it heard
last what was noted last; and so it did, unless a command told it of the video unread. -/
theorem video_changes_told {codec : Codec} {source : Source} {options : Options} {fresh : σ} {actions : List Action}
    (alone : ∀ pts g, .overtake pts g ∉ actions) {t : Session σ}
    (ran : ((Session.opened codec source options fresh).run actions).2 = t) (free : t.holdsBackend = false) :
    ∃ noted before after,
      noted = ((Session.opened codec source options fresh).gathered Action.noted? actions).getLast? ∧
      before = t.stream.backend.calls ∧
      after = (fun params => (t.step (.video params)).2.stream.backend.calls) ∧
      (∀ params, commands (after params) =
        if noted = some params then commands before else .video params :: commands before) ∧
      ((∀ params, (toldVideos (after params)).head? = some params ∧
          ((toldVideos before).head? = some params → commands (after params) = commands before)) ↔
        (toldVideos before).head? = noted) ∧
      ((∀ params, .control (.video params) ∉ actions) → (toldVideos before).head? = noted) := by
  have noted : t.stream.lastVideo =
      ((Session.opened codec source options fresh).gathered Action.noted? actions).getLast? := by
    rw [← ran, Session.lastVideo_run alone]
    exact Option.or_none
  have passed : ∀ params, commands (t.step (.video params)).2.stream.backend.calls =
      if t.stream.lastVideo = some params then commands t.stream.backend.calls
      else .video params :: commands t.stream.backend.calls := fun params => (Session.step_video free params).2
  refine ⟨_, _, _, rfl, rfl, rfl, noted ▸ passed, ?_, fun unpassed => ?_⟩
  · rw [← noted]
    exact Session.tells_iff free
  · rw [← noted, ← ran]
    exact Session.told_run alone unpassed rfl

/-! A stream of pictures, and a video that becomes larger while a frame is shown. -/

def smallVideo : VideoFormat := { width := 320, height := 180 }

def largeVideo : VideoFormat := { width := 640, height := 360 }

def videoOpened : Session PictureBackend := .opened ⟨"picture", #[]⟩ (.ofPackets []) {} {}

def videoActions : List Action :=
  [.video smallVideo, .acquire { width := 64, height := 48 } .one, .release, .control (.top true), .reset,
    .video largeVideo]

/-- The smaller video is told again, and the larger one is not. -/
theorem video_changes_told_twoSizes :
    (∀ pts g, .overtake pts g ∉ videoActions) ∧ (∀ params, .control (.video params) ∉ videoActions) ∧
      ∃ t, t = (videoOpened.run videoActions).2 ∧ t.holdsBackend = false ∧
        toldVideos t.stream.backend.calls = [largeVideo, smallVideo] ∧
        toldVideos (t.step (.video smallVideo)).2.stream.backend.calls = [smallVideo, largeVideo, smallVideo] ∧
        commands (t.step (.video largeVideo)).2.stream.backend.calls = commands t.stream.backend.calls := by
  have alone : ∀ pts g, .overtake pts g ∉ videoActions := by simp [videoActions]
  have unpassed : ∀ params, .control (.video params) ∉ videoActions := by simp [videoActions]
  have free : (videoOpened.run videoActions).2.holdsBackend = false := by decide +kernel
  obtain ⟨_, _, _, rfl, rfl, rfl, -, iff, agrees⟩ := video_changes_told alone rfl free
  have told : toldVideos (videoOpened.run videoActions).2.stream.backend.calls = [largeVideo, smallVideo] := by
    decide +kernel
  have silent := (iff.2 (agrees unpassed) largeVideo).2 (congrArg List.head? told)
  exact ⟨alone, unpassed, _, rfl, free, told, by decide +kernel, silent⟩

/-- Commands that go by unread leave the backend with other parameters than it was told last, and have it
told of the same ones twice. -/
theorem video_change_withheld :
    (∃ t, t = (videoOpened.run [.video smallVideo, .control (.video largeVideo)]).2 ∧ t.holdsBackend = false ∧
      (toldVideos (t.step (.video smallVideo)).2.stream.backend.calls).head? = some largeVideo) ∧
      ∃ t, t = (videoOpened.run [.control (.video smallVideo)]).2 ∧ t.holdsBackend = false ∧
        (toldVideos t.stream.backend.calls).head? = some smallVideo ∧
        toldVideos (t.step (.video smallVideo)).2.stream.backend.calls = [smallVideo, smallVideo] :=
  ⟨⟨_, rfl, by decide +kernel, by decide +kernel⟩, _, rfl, by decide +kernel, by decide +kernel, by decide +kernel⟩

end Subtitles
