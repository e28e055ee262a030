/-
# Proofs.Player.Pictures: which pictures a player makes

Of a script a player makes the picture of the first frame, and of every frame that looks different from the one
before (`pictures_of_changes`). Either nothing is rendered ahead (`upholds_onDemand`), or the worker renders what
is asked for ahead (`upholds_ahead`). In the second case a change can be missed among the first frames, where one
of them has the number 0; `picture_missed` is a script where one is.
-/
import Subtitles.Proofs.Binary64.Products
import Subtitles.Proofs.Canvas
import Subtitles.Proofs.Player.Ahead
namespace Subtitles

set_option autoImplicit false

variable {settings : PlaySettings} {script : Script} {shown : List ShownFrame} {ending : Except Stop Player}

theorem PlaySettings.frameCount_pos (settings : PlaySettings) (script : Script) : 0 < settings.frameCount script :=
  Binary64.toUInt64_pos (Binary64.one_le_maximum _)

namespace Player

variable {fresh : AnyBackend} {us : List Use} {s : Stream AnyBackend} {p : Player} {frames : Nat}

theorem Upholds.imp {excused excused' : Nat → Prop} {kept : List Frame → Stream AnyBackend → Prop}
    (upholds : Upholds settings excused kept) (excuse : ∀ i, excused i → excused' i) :
    Upholds settings excused' kept := by
  intro before s f out back holds acquired released
  obtain ⟨tells, holds'⟩ := upholds before s f out back holds acquired released
  exact ⟨tells.imp (excuse _), holds'⟩

/-- The frames that a number 0 may be wrong at: the first that were rendered ahead, and those among them that were
rendered for themselves. -/
def MayMiss (settings : PlaySettings) (script : Script) (index : Nat) : Prop :=
  0 < settings.renderAhead.toNat ∧ settings.geometry.isVoid = false ∧ script.codec.name ≠ "picture" ∧
    0 < index ∧ index ≤ settings.startUp

theorem Opened.onDemand (opened : Opened settings script fresh us s)
    (nothing : settings.renderAhead.toNat = 0 ∨ settings.geometry.isVoid = true ∨ script.codec.name = "picture") :
    OnDemand settings fresh [] s := by
  have picture := opened.picture
  obtain ⟨backend, lastVideo, rfl⟩ := opened.stream
  refine ⟨?_, us, opened.state, nofun, opened.unshown⟩
  obtain none | void | named := nothing
  · have none : ¬ 0 < settings.renderAhead := fun some => Nat.ne_of_gt (UInt64.lt_iff_toNat_lt.1 some) none
    exact .inl (by simp [Stream.threaded, Stream.ofBackend, none])
  · exact .inr ⟨rfl, void⟩
  · exact .inl (by simp [Stream.threaded, Stream.ofBackend, picture, named])

/-- A player just opened has read ahead, and its first frame is not waited for. What it keeps from then on makes all
numbers tell but those of frames that may be missed, and it waits for a worker that has ended at most. -/
theorem Opened.upholds (opened : Opened settings script fresh us s) (rate : settings.hasRate = true) (count : Nat) :
    ∃ kept, Upholds settings (MayMiss settings script) kept ∧ Attends settings kept ∧
      kept [] (readForFirst settings count s) ∧
      ((readFor settings settings.renderAhead.toNat (readForFirst settings count s)).acquire settings.geometry
        (settings.ptsOf 0)).1 ≠ .stalled := by
  by_cases ahead : 0 < settings.renderAhead.toNat ∧ settings.geometry.isVoid = false ∧ script.codec.name ≠ "picture"
  · obtain ⟨some, visible, text⟩ := ahead
    have setting : RendersAhead settings fresh := ⟨rate, visible, some, opened.few, opened.builtin⟩
    have primed := (opened.primed setting text).readForFirst count
    refine ⟨Ahead settings fresh, (upholds_ahead setting).imp fun i start => ⟨some, visible, text, start⟩,
      attends_ahead setting, .inl ⟨rfl, primed⟩, (primed.readFor _).acquire_ne_stalled setting _⟩
  · have nothing : settings.renderAhead.toNat = 0 ∨ settings.geometry.isVoid = true ∨
        script.codec.name = "picture" := by
      by_contra! other
      exact ahead ⟨Nat.pos_of_ne_zero other.1, Bool.eq_false_iff.2 other.2.1, other.2.2⟩
    have kept := opened.onDemand nothing
    have first := kept.decodes (decodes_readForFirst (kept.idle.imp_right And.left) settings count)
    have next := first.decodes (decodes_readFor (first.idle.imp_right And.left) settings settings.renderAhead.toNat)
    exact ⟨OnDemand settings fresh, upholds_onDemand opened.builtin _, attends_onDemand, first,
      Stream.acquire_onDemand_ne_stalled (next.idle.imp_right And.right) _⟩

/-- So it is with a player opened for a script, once it has read ahead of its frames. -/
theorem primed_of_open? (rate : settings.hasRate = true) (opened : Player.open? settings script = .ok p) (frames : Nat) :
    ∃ kept, Upholds settings (MayMiss settings script) kept ∧ Attends settings kept ∧
      kept [] (p.prime frames).stream ∧ Tallied [] (p.prime frames).tally ∧ (p.prime frames).settings = settings ∧
      (p.prime frames).acquireNext.1 ≠ .stalled := by
  obtain ⟨rfl, tally, fresh, us, start⟩ := opened_of_open? opened
  obtain ⟨kept, upholds, attends, holds, answers⟩ := start.upholds rate (min p.settings.renderAhead.toNat frames + 1)
  refine ⟨kept, upholds, attends, holds, tally ▸ ⟨rfl, .inl rfl⟩, rfl, ?_⟩
  rw [acquireNext, readNext, prime, tally]
  dsimp only
  rw [Nat.zero_add]
  exact answers

end Player

namespace Script

open Player (Judged MayMiss)

/-- All frames of a script are judged right, and without a first one there was a fault. -/
theorem play_judged (rate : settings.hasRate = true) (played : script.play settings = .ok (shown, ending)) :
    (∀ f, shown[0]? = some f → Judged settings (MayMiss settings script 0) none f) ∧
      (∀ i e f, shown[i]? = some e → shown[i + 1]? = some f →
        Judged settings (MayMiss settings script (i + 1)) (some e.frame.frame) f) ∧
      (shown = [] → ∃ fault, ending = .error (.fault fault)) := by
  obtain ⟨p, opened, ran⟩ := exists_of_play played
  obtain ⟨kept, upholds, -, holds, tallied, same, answers⟩ :=
    Player.primed_of_open? rate opened (settings.frameCount script)
  obtain ⟨first, others⟩ := Player.run_judged (settings.frameCount script) (same ▸ upholds) holds tallied
  rw [ran, same] at first others
  refine ⟨first, fun i e f here there => ?_, fun none => ?_⟩
  · have judged := others i e f here there
    rwa [List.length_nil, Nat.zero_add] at judged
  · exact Player.fault_of_run_eq_nil (settings.frameCount_pos script) answers (ran.trans (none ▸ rfl))

/-- The first frame has its picture, if one is shown. -/
theorem play_first (rate : settings.hasRate = true) (wanted : settings.pictures = true)
    (played : script.play settings = .ok (shown, ending)) :
    (∃ f, shown[0]? = some f ∧ f.picture.isSome = true) ∨ (shown = [] ∧ ∃ fault, ending = .error (.fault fault)) := by
  obtain ⟨first, -, none⟩ := play_judged rate played
  cases shown with
  | nil => exact .inr ⟨rfl, none rfl⟩
  | cons f rest =>
      refine .inl ⟨f, rfl, ?_⟩
      cases made : f.picture with
      | some bytes => rfl
      | none =>
          obtain ⟨e, absent, -⟩ | ⟨-, -, -, -, past, -⟩ := (first f rfl).told wanted made
          · cases absent
          · exact absurd past (Nat.lt_irrefl 0)

/-- The first frame has its picture, and so does every frame that looks different from the one before; unless frames
are rendered ahead, the frame is among the first, and it was given the number 0. A picture that is made is that of
its frame. If there is no first frame, a fault is to blame. -/
theorem pictures_of_changes (rate : settings.hasRate = true) (wanted : settings.pictures = true)
    (played : script.play settings = .ok (shown, ending)) :
    (∀ f ∈ shown, ∀ bytes, f.picture = some bytes →
      f.frame.frame.composite settings.width settings.height = .ok bytes) ∧
    ((∃ f, shown[0]? = some f ∧ f.picture.isSome = true) ∨ (shown = [] ∧ ∃ fault, ending = .error (.fault fault))) ∧
    ∀ i e f, shown[i]? = some e → shown[i + 1]? = some f →
      f.frame.frame.composite settings.width settings.height ≠ e.frame.frame.composite settings.width settings.height →
      f.picture.isSome = true ∨ (f.frame.frame.changeId = 0 ∧ 0 < settings.renderAhead.toNat ∧
        settings.geometry.isVoid = false ∧ script.codec.name ≠ "picture" ∧ i ≤ 2 * settings.renderAhead.toNat) := by
  obtain ⟨first, others, -⟩ := play_judged rate played
  refine ⟨fun f member bytes made => ?_, play_first rate wanted played, fun i e f here there differs => ?_⟩
  · obtain ⟨i, there⟩ := List.mem_iff_getElem?.1 member
    cases i with
    | zero => exact (first f there).drawn bytes made
    | succ i =>
        obtain ⟨bound, -⟩ := List.getElem?_eq_some_iff.1 there
        exact (others i shown[i] f (List.getElem?_eq_getElem _) there).drawn bytes made
  · cases made : f.picture with
    | some bytes => exact .inl rfl
    | none =>
        obtain ⟨e', same, looks⟩ | ⟨number, ahead, visible, text, -, start⟩ :=
          (others i e f here there).told wanted made
        · obtain rfl := Option.some.inj same
          exact absurd (looks.composite_eq ..) differs
        · exact .inr ⟨number, ahead, visible, text, Nat.succ_le_succ_iff.1 start⟩

/-! Two short lines are played a frame a second, with one frame ahead. -/

def briefLine (pts : Nat) (text : String) : Packet := ⟨some (.ofNat pts), some .one, text.toUTF8.data⟩

def briefScript : Script := { codec := { name := "text" }, packets := [briefLine 1 "hi", briefLine 4 "ho"] }

def briefSettings : PlaySettings :=
  { fps := .one, width := 1, height := 90, renderAhead := 1, duration := some (.ofNat 6), pictures := true }

/-- The second line has its picture, and so has the end of it. -/
theorem pictures_of_changes_brief : ∃ shown ending,
    briefSettings.hasRate = true ∧ briefSettings.pictures = true ∧
      briefScript.play briefSettings = .ok (shown, ending) ∧ shown.map (·.picture.isSome) = [true, true, false, true, true, true] ∧
      (∀ f ∈ shown, ∀ bytes, f.picture = some bytes → f.frame.frame.composite 1 90 = .ok bytes) ∧
      ((∃ f, shown[0]? = some f ∧ f.picture.isSome = true) ∨ (shown = [] ∧ ∃ fault, ending = .error (.fault fault))) ∧
      ∀ i e f, shown[i]? = some e → shown[i + 1]? = some f →
        f.frame.frame.composite 1 90 ≠ e.frame.frame.composite 1 90 →
        f.picture.isSome = true ∨ (f.frame.frame.changeId = 0 ∧ 0 < (1 : UInt64).toNat ∧
          briefSettings.geometry.isVoid = false ∧ briefScript.codec.name ≠ "picture" ∧ i ≤ 2 * (1 : UInt64).toNat) := by
  have rate : briefSettings.hasRate = true := by decide +kernel
  cases played : briefScript.play briefSettings with
  | error e =>
      have opened : (briefScript.play briefSettings).toOption.isSome = true := by decide +kernel
      rw [played] at opened
      cases opened
  | ok result =>
      have made : (briefScript.play briefSettings).toOption.map (fun r => r.1.map (·.picture.isSome)) =
          some [true, true, false, true, true, true] := by decide +kernel
      rw [played] at made
      exact ⟨result.1, result.2, rate, rfl, rfl, Option.some.inj made, pictures_of_changes rate rfl played⟩

/-- The first line is gone in the third frame, and that has no picture. It was rendered ahead right behind the first
one, before the second was rendered for itself, and repeats the first. -/
theorem picture_missed : ∃ shown ending e f, briefSettings.hasRate = true ∧ briefSettings.pictures = true ∧
    briefScript.play briefSettings = .ok (shown, ending) ∧ shown[1]? = some e ∧ shown[2]? = some f ∧
      f.frame.frame.changeId = 0 ∧ f.picture = none ∧
      f.frame.frame.composite 1 90 ≠ e.frame.frame.composite 1 90 := by
  have missed : (briefScript.play briefSettings).toOption.any (fun r => r.1[1]?.any fun e => r.1[2]?.any fun f =>
      f.frame.frame.changeId == 0 && f.picture.isNone &&
        decide ((f.frame.frame.composite 1 90).toOption.map Array.toList ≠
          (e.frame.frame.composite 1 90).toOption.map Array.toList)) = true := by decide +kernel
  cases played : briefScript.play briefSettings with
  | error e =>
      rw [played] at missed
      cases missed
  | ok result =>
      rw [played, Except.toOption, Option.any_some] at missed
      obtain ⟨e, here, missed⟩ := (Option.any_eq_true ..).1 missed
      obtain ⟨f, there, missed⟩ := (Option.any_eq_true ..).1 missed
      simp only [Bool.and_eq_true, beq_iff_eq, Option.isNone_iff_eq_none, decide_eq_true_eq] at missed
      obtain ⟨⟨number, none⟩, differs⟩ := missed
      exact ⟨result.1, result.2, e, f, by decide +kernel, rfl, rfl, here, there, number, none,
        fun same => differs (congrArg (fun composed => composed.toOption.map Array.toList) same)⟩

end Script

end Subtitles
