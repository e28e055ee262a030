/-
# Proofs.Program: which pictures the program writes

The program shows frames one by one, and writes each picture as soon as it is made. What it writes is what a run of
the player shows: the pictures of the frames shown, in order, up to the first that cannot be written
(`showFrames_eq`). So of a script that is played, frame by frame, each picture made goes to the file of its frame
(`showFrames_of_play`). A size without pixels has pictures too, but there is no file of any, and the program stops
at the first one (`showFrames_of_isVoid`).
-/
import Subtitles.Program
import Subtitles.Proofs.Player.Ending
namespace Subtitles

set_option autoImplicit false

namespace Program

variable {m : Type → Type} [Monad m]

/-- Write the pictures of the frames, in order, up to the first that cannot be written. -/
def writePictures (host : Host m) (c : PlayCommand) : List ShownFrame → m (Option PlayError)
  | [] => return none
  | ⟨index, _, some picture⟩ :: rest => do
    let path := picturePath (c.pictureDirectory.getD "") index
    if ← writePicture host c path picture then writePictures host c rest
    else return some (.unwritable path)
  | ⟨_, _, none⟩ :: rest => writePictures host c rest

/-- What comes of showing frames, once those shown have their pictures written. -/
def exitOf (ending : Except Stop Player) : Option PlayError → Except Exit Player
  | some e => .error (.failed e)
  | none => ending.mapError .stopped

variable [LawfulMonad m] {script : Script} {shown : List ShownFrame} {ending : Except Stop Player}

/-- Showing frames and writing their pictures may as well be done one after the other. -/
theorem showFrames_eq (host : Host m) (c : PlayCommand) (count : Nat) (p : Player) :
    showFrames host c count p = exitOf (p.run count).2 <$> writePictures host c (p.run count).1 := by
  induction count generalizing p with
  | zero => simp [showFrames, Player.run, writePictures, exitOf, Except.mapError]
  | succ count ih =>
      unfold showFrames Player.run
      cases shows : p.showNext with
      | error stop => simp [writePictures, exitOf, Except.mapError]
      | ok result =>
          obtain ⟨⟨index, frame, picture⟩, p'⟩ := result
          cases picture with
          | none => exact ih p'
          | some picture =>
              simp only [writePictures, map_bind]
              refine congrArg _ (funext fun written => ?_)
              cases written with
              | true => exact ih p'
              | false => simp [exitOf]

/-- Of a size without pixels nothing is written, and the first picture is the last thing tried. -/
theorem writePictures_of_isVoid (host : Host m) {c : PlayCommand} (void : c.settings.geometry.isVoid = true)
    (shown : List ShownFrame) :
    writePictures host c shown = pure ((shown.find? fun f => f.picture.isSome).map fun f =>
      .unwritable (picturePath (c.pictureDirectory.getD "") f.index)) := by
  induction shown with
  | nil => rfl
  | cons f rest ih =>
      obtain ⟨index, frame, picture⟩ := f
      cases picture with
      | none => exact ih
      | some picture => simp [writePictures, writePicture, void]

/-- The frames of a script are shown as it is played, and the pictures made of them are written, each to the file of
its place. -/
theorem showFrames_of_play (host : Host m) {c : PlayCommand} (played : script.play c.settings = .ok (shown, ending)) :
    ∃ p, Player.open? c.settings script = .ok p ∧
      showFrames host c (c.settings.frameCount script) (p.prime (c.settings.frameCount script)) =
        exitOf ending <$> writePictures host c shown ∧
      ∀ (i : Nat) f, shown[i]? = some f → f.index = i := by
  obtain ⟨p, opened, ran⟩ := Script.exists_of_play played
  obtain ⟨-, tally, -⟩ := Player.opened_of_open? opened
  refine ⟨p, opened, ?_, fun i f there => ?_⟩
  · rw [showFrames_eq, ran]
  · have shows : ((p.prime (c.settings.frameCount script)).run (c.settings.frameCount script)).1[i]? = some f := by
      rwa [ran]
    rw [Player.index_of_run _ _ shows, Player.prime, tally]
    exact Nat.zero_add i

/-- With pictures wanted of a size without pixels, the program writes none and stops at the first frame. -/
theorem showFrames_of_isVoid (host : Host m) {c : PlayCommand} (rate : c.settings.hasRate = true)
    (wanted : c.settings.pictures = true) (void : c.settings.geometry.isVoid = true)
    (played : script.play c.settings = .ok (shown, ending)) :
    ∃ p e, Player.open? c.settings script = .ok p ∧
      showFrames host c (c.settings.frameCount script) (p.prime (c.settings.frameCount script)) = pure (.error e) ∧
      (e = .failed (.unwritable (picturePath (c.pictureDirectory.getD "") 0)) ∨
        ∃ fault, e = .stopped (.fault fault)) := by
  obtain ⟨p, opened, shows, indices⟩ := showFrames_of_play host played
  rw [writePictures_of_isVoid host void, map_pure] at shows
  obtain ⟨f, here, made⟩ | ⟨rfl, fault, rfl⟩ := Script.play_first rate wanted played
  · obtain ⟨rest, rfl⟩ : ∃ rest, shown = f :: rest :=
      ⟨shown.tail, List.eq_cons_of_mem_head? (List.head?_eq_getElem? ▸ here)⟩
    have found : (f :: rest).find? (fun f => f.picture.isSome) = some f := List.find?_cons_of_pos made
    rw [found, Option.map_some, indices 0 f rfl] at shows
    exact ⟨p, _, opened, shows, .inl rfl⟩
  · exact ⟨p, _, opened, shows, .inr ⟨fault, rfl⟩⟩

end Program
end Subtitles
