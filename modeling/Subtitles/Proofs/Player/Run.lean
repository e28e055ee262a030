/-
# Proofs.Player.Run: a picture of what its number tells

A player makes a picture of a frame whose number is neither 0 nor that of the picture before. So it makes
one of every frame whose number tells (`Tells`), unless the frame shows what the one before showed. What a
player keeps from frame to frame is stated about the frames shown so far, the latest first, and about the
stream between two of them (`Upholds`); that all frames are then `Judged` right is an induction over the run
(`run_judged`).
-/
import Subtitles.Player
import Subtitles.Proofs.Ended
import Subtitles.Proofs.Uses
namespace Subtitles

set_option autoImplicit false

/-- The same picture, whatever the numbers say. -/
theorem Frame.SameContent.composite_eq {f e : Frame} (same : f.SameContent e) (width height : UInt32) :
    f.composite width height = e.composite width height := by
  obtain ⟨format, parts⟩ := same
  have canvas : ∀ width height, f.onCanvas width height = e.onCanvas width height := by
    intro width height
    rw [Frame.onCanvas, Frame.onCanvas, Frame.isEmpty, Frame.isEmpty, format, parts]
  rw [Frame.composite, Frame.composite, canvas]

namespace Tally

variable {settings : PlaySettings} {f : HeldFrame} {t t' : Tally} {shown : ShownFrame}

/-- A frame is counted, and its picture made if it is wanted. -/
theorem note_cases (noted : t.note settings f = .ok (shown, t')) :
    shown.index = t.frames ∧ shown.frame = f ∧ t'.frames = t.frames + 1 ∧
      ((∃ bytes, f.frame.composite settings.width settings.height = .ok bytes ∧ shown.picture = some bytes ∧
          t'.lastPicture = f.frame.changeId) ∨
        ((settings.pictures && t.wantsPicture f.frame.changeId) = false ∧ shown.picture = none ∧
          t'.lastPicture = t.lastPicture)) := by
  unfold note at noted
  dsimp only at noted
  split at noted
  · obtain ⟨bytes, drawn, noted⟩ := bind_eq_ok_iff.1 noted
    cases noted
    exact ⟨rfl, rfl, rfl, .inl ⟨bytes, drawn, rfl, rfl⟩⟩
  · next unwanted =>
      cases noted
      exact ⟨rfl, rfl, rfl, .inr ⟨Bool.eq_false_iff.2 unwanted, rfl, rfl⟩⟩

end Tally

namespace Player

variable {settings : PlaySettings} {p p' : Player} {shown : ShownFrame}

/-- The stream from which the next frame is taken. -/
def readNext (p : Player) : Stream AnyBackend :=
  readFor p.settings (p.tally.frames + p.settings.renderAhead.toNat) p.stream

/-- The frame asked for next. -/
def acquireNext (p : Player) : Acquired × Stream AnyBackend :=
  p.readNext.acquire p.settings.geometry (p.settings.ptsOf p.tally.frames)

/-- A frame is taken out, noted and given back, unless there is a fault or the frame is waited for. -/
theorem showNext_cases (p : Player) :
    (∃ f out back shown tally, p.acquireNext = (.frame f, out) ∧ out.release f = .ok back ∧
      p.tally.note p.settings f = .ok (shown, tally) ∧ p.showNext = .ok (shown, ⟨p.settings, rest back, tally⟩)) ∨
    (∃ fault, p.showNext = .error (.fault fault)) ∨ p.acquireNext.1 = .stalled ∧ p.showNext = .error .stalled := by
  obtain ⟨settings, stream, tally⟩ := p
  unfold showNext acquireNext readNext
  dsimp only
  generalize (readFor settings (tally.frames + settings.renderAhead.toNat) stream).acquire settings.geometry
    (settings.ptsOf tally.frames) = taken
  obtain ⟨answer, out⟩ := taken
  cases answer with
  | stalled => exact .inr (.inr ⟨rfl, rfl⟩)
  | fault f => exact .inr (.inl ⟨f, rfl⟩)
  | frame f =>
      cases noted : tally.note settings f with
      | error fault => exact .inr (.inl ⟨fault, by simp only [noted]; rfl⟩)
      | ok result =>
          cases released : out.release f with
          | error fault => exact .inr (.inl ⟨fault, by simp only [noted, released]; rfl⟩)
          | ok back =>
              refine .inl ⟨f, out, back, result.1, result.2, rfl, released, noted, ?_⟩
              simp only [noted, released]
              rfl

/-- What is kept from frame to frame of the frames shown so far and the stream, and what the next number then
tells. -/
def Upholds (settings : PlaySettings) (excused : Nat → Prop) (kept : List Frame → Stream AnyBackend → Prop) : Prop :=
  ∀ before s f out back, kept before s →
    (readFor settings (before.length + settings.renderAhead.toNat) s).acquire settings.geometry
      (settings.ptsOf before.length) = (.frame f, out) →
    out.release f = .ok back →
    Tells (excused before.length) before.head? before f.frame ∧ kept (f.frame :: before) (rest back)

/-- With what is kept, a frame is waited for only if the worker has ended. -/
def Attends (settings : PlaySettings) (kept : List Frame → Stream AnyBackend → Prop) : Prop :=
  ∀ before s, kept before s →
    ((readFor settings (before.length + settings.renderAhead.toNat) s).acquire settings.geometry
      (settings.ptsOf before.length)).1 = .stalled →
    ∃ f, (readFor settings (before.length + settings.renderAhead.toNat) s).worker = .crashed f

/-- A picture that was made is that of the frame. None is made where the frame before looked the same, or the
number is 0 and that is excused. -/
structure Judged (settings : PlaySettings) (excused : Prop) (previous : Option Frame) (shown : ShownFrame) : Prop where
  drawn : ∀ bytes, shown.picture = some bytes →
    shown.frame.frame.composite settings.width settings.height = .ok bytes
  told : settings.pictures = true → shown.picture = none →
    (∃ e, previous = some e ∧ shown.frame.frame.SameContent e) ∨ (shown.frame.frame.changeId = 0 ∧ excused)

/-- What was shown so far is tallied: the number of the latest picture is that of a frame, if there is one. -/
structure Tallied (before : List Frame) (t : Tally) : Prop where
  frames : t.frames = before.length
  lastPicture : t.lastPicture = 0 ∨ ∃ e ∈ before, e.changeId = t.lastPicture

variable {before : List Frame}

/-- A number that tells is heeded. -/
theorem Tallied.note {t t' : Tally} {f : HeldFrame} {excused : Prop} (tallied : Tallied before t)
    (tells : Tells excused before.head? before f.frame) (noted : t.note settings f = .ok (shown, t')) :
    Judged settings excused before.head? shown ∧ shown.frame = f ∧ Tallied (f.frame :: before) t' := by
  obtain ⟨-, rfl, frames, ⟨bytes, drawn, made, last⟩ | ⟨unwanted, none, last⟩⟩ := Tally.note_cases noted
  · refine ⟨⟨fun bytes' same => ?_, fun _ absent => ?_⟩, rfl, ?_, .inr ⟨_, List.mem_cons_self, last.symm⟩⟩
    · rwa [Option.some.inj (same.symm.trans made)]
    · exact absurd (made.symm.trans absent) nofun
    · rw [frames, tallied.frames, List.length_cons]
  · refine ⟨⟨fun bytes' same => absurd (none.symm.trans same) nofun, fun pictures _ => ?_⟩, rfl, ?_, ?_⟩
    · obtain same | ⟨number, other⟩ | excuse := tells
      · exact .inl same
      · have apart : shown.frame.frame.changeId ≠ t.lastPicture := by
          rcases tallied.lastPicture with zero | ⟨e, member, same⟩
          · exact zero ▸ number
          · exact same ▸ (other e member).symm
        rw [pictures, Bool.true_and, Tally.wantsPicture] at unwanted
        simp [number, apart] at unwanted
      · exact .inr excuse
    · rw [frames, tallied.frames, List.length_cons]
    · rw [last]
      exact tallied.lastPicture.imp_right fun ⟨e, member, same⟩ => ⟨e, List.mem_cons_of_mem _ member, same⟩

variable {excused : Nat → Prop} {kept : List Frame → Stream AnyBackend → Prop}

theorem showNext_judged (upholds : Upholds p.settings excused kept) (holds : kept before p.stream)
    (tallied : Tallied before p.tally) (shows : p.showNext = .ok (shown, p')) :
    Judged p.settings (excused before.length) before.head? shown ∧ kept (shown.frame.frame :: before) p'.stream ∧
      Tallied (shown.frame.frame :: before) p'.tally ∧ p'.settings = p.settings := by
  obtain ⟨f, out, back, shown', tally, acquired, released, noted, became⟩ | ⟨fault, became⟩ | ⟨-, became⟩ :=
    p.showNext_cases
  · obtain ⟨rfl, rfl⟩ := Prod.mk.inj (Except.ok.inj (became.symm.trans shows))
    rw [acquireNext, readNext, tallied.frames] at acquired
    obtain ⟨tells, holds'⟩ := upholds before p.stream f out back holds acquired released
    obtain ⟨judged, rfl, tallied'⟩ := tallied.note tells noted
    exact ⟨judged, holds', tallied', rfl⟩
  · cases became.symm.trans shows
  · cases became.symm.trans shows

/-- Frame after frame. -/
theorem run_judged (count : Nat) (upholds : Upholds p.settings excused kept) (holds : kept before p.stream)
    (tallied : Tallied before p.tally) :
    (∀ f, (p.run count).1[0]? = some f → Judged p.settings (excused before.length) before.head? f) ∧
      ∀ i e f, (p.run count).1[i]? = some e → (p.run count).1[i + 1]? = some f →
        Judged p.settings (excused (before.length + i + 1)) (some e.frame.frame) f := by
  induction count generalizing p before with
  | zero => exact ⟨nofun, nofun⟩
  | succ count ih =>
      unfold run
      cases shows : p.showNext with
      | error stop => exact ⟨nofun, nofun⟩
      | ok result =>
          obtain ⟨shown, p'⟩ := result
          obtain ⟨judged, holds', tallied', settings'⟩ := showNext_judged upholds holds tallied shows
          obtain ⟨first, others⟩ := ih (settings' ▸ upholds) holds' tallied'
          rw [settings'] at first others
          refine ⟨fun f there => Option.some.inj there ▸ judged, fun i e f here there => ?_⟩
          cases i with
          | zero => exact Option.some.inj here ▸ first f there
          | succ i =>
              have judged' := others i e f here there
              rwa [List.length_cons, Nat.add_right_comm _ 1 i] at judged'

/-- Where nothing is shown, and the first frame is not waited for, there was a fault. -/
theorem fault_of_run_eq_nil {count : Nat} {ending : Except Stop Player} (some : 0 < count)
    (answers : p.acquireNext.1 ≠ .stalled) (ran : p.run count = ([], ending)) :
    ∃ fault, ending = .error (.fault fault) := by
  obtain ⟨count, rfl⟩ := Nat.exists_eq_succ_of_ne_zero (Nat.ne_of_gt some)
  rw [run] at ran
  obtain ⟨f, out, back, shown, tally, -, -, -, became⟩ | ⟨fault, became⟩ | ⟨stalled, -⟩ := p.showNext_cases
  · rw [became] at ran
    cases ran
  · rw [became] at ran
    exact ⟨fault, (congrArg Prod.snd ran).symm⟩
  · exact absurd stalled answers

end Player

/-- A script is played by a player that was opened for it, and has read ahead. -/
theorem Script.exists_of_play {script : Script} {settings : PlaySettings} {shown : List ShownFrame}
    {ending : Except Stop Player} (played : script.play settings = .ok (shown, ending)) :
    ∃ p, Player.open? settings script = .ok p ∧
      (p.prime (settings.frameCount script)).run (settings.frameCount script) = (shown, ending) := by
  obtain ⟨p, opened, played⟩ := bind_eq_ok_iff.1 played
  exact ⟨p, opened, Except.ok.inj played⟩

end Subtitles
