/-
# Proofs.Player.OnDemand: a player that renders nothing ahead

A player has nothing rendered ahead if it asks for no frames ahead, if its backend takes pictures, which it
does one at a time, or if there are no pixels to draw on. Its backend is then used in one way between two
frames: packets are decoded. So the number of a frame is about the frame shown before it, and tells
(`upholds_onDemand`).
-/
import Subtitles.Proofs.AnyBackend
import Subtitles.Proofs.Player.Run
import Subtitles.Proofs.Stream.OnDemand
namespace Subtitles

set_option autoImplicit false

variable {settings : PlaySettings} {script : Script} {fresh : AnyBackend} {us : List Use} {s : Stream AnyBackend}

namespace Player

/-! ## Opening -/

/-- The stream of a script, just opened with one of the built-in backends: nothing was read or shown yet. -/
structure Opened (settings : PlaySettings) (script : Script) (fresh : AnyBackend) (us : List Use)
    (s : Stream AnyBackend) : Prop where
  builtin : fresh ∈ AnyBackend.builtin
  picture : (Backend.accepts fresh).isSome = decide (script.codec.name = "picture")
  few : settings.renderAhead.toNat ≤ Options.mostAhead
  unshown : latestRender? us = none
  state : s.backend.state = afterUses fresh us
  stream : ∃ backend lastVideo, s = { Stream.ofBackend script.codec (.ofPackets script.packets)
    { renderAhead := settings.renderAhead } fresh with backend, lastVideo }

theorem Opened.noteVideo (opened : Opened settings script fresh us s) (video : VideoFormat) :
    ∃ us, Opened settings script fresh us (s.noteVideo video) := by
  obtain ⟨backend, lastVideo, rfl⟩ := opened.stream
  unfold Stream.noteVideo
  split
  · exact ⟨us, opened⟩
  · refine ⟨.control (.video video) :: us, opened.builtin, opened.picture, opened.few, opened.unshown, ?_, _, _, rfl⟩
    have state : backend.state = afterUses fresh us := opened.state
    rw [afterUses, ← state]
    rfl

theorem openFirst_ok {σ : Type} [Backend σ] {codec : Codec} {candidates : List σ} {b : σ}
    (taken : (openFirst codec candidates).2 = .ok b) : ∃ c ∈ candidates, Backend.init codec c = (.ok (), b) := by
  induction candidates with
  | nil => cases taken
  | cons c rest ih =>
      cases answer : Backend.init codec c with
      | mk result after =>
          cases result with
          | ok =>
              simp only [openFirst, answer] at taken
              cases taken
              exact ⟨c, List.mem_cons_self, answer⟩
          | error e =>
              simp only [openFirst, answer] at taken
              obtain ⟨d, member, found⟩ := ih taken
              exact ⟨d, List.mem_cons_of_mem _ member, found⟩

/-- Only the backend for pictures takes pictures, and only it pushes back. -/
theorem accepts_of_init {codec : Codec} {fresh b : AnyBackend} (builtin : fresh ∈ AnyBackend.builtin)
    (taken : Backend.init codec fresh = (.ok (), b)) :
    (Backend.accepts fresh).isSome = decide (codec.name = "picture") ∧
      (Backend.accepts b).isSome = (Backend.accepts fresh).isSome := by
  rcases List.mem_cons.1 builtin with rfl | text
  · have inside : Backend.init codec (AnyBackend.picture {}) =
      (PictureBackend.init codec {}).map id AnyBackend.picture := rfl
    rw [inside] at taken
    obtain ⟨answer, rfl⟩ := Prod.mk.inj taken
    have answer : (PictureBackend.init codec {}).1 = .ok () := answer
    have name : codec.name = "picture" := by
      by_contra other
      rw [PictureBackend.init, if_pos other] at answer
      cases answer
    exact ⟨(decide_eq_true name).symm, rfl⟩
  · obtain rfl := List.mem_singleton.1 text
    have inside : Backend.init codec (AnyBackend.text {}) = (TextBackend.init codec {}).map id AnyBackend.text := rfl
    rw [inside] at taken
    obtain ⟨answer, rfl⟩ := Prod.mk.inj taken
    have answer : (TextBackend.init codec {}).1 = .ok () := answer
    have name : codec.name ≠ "picture" := by
      intro same
      rw [TextBackend.init, same] at answer
      cases answer
    exact ⟨(decide_eq_false name).symm, rfl⟩

theorem opened_of_open? {p : Player} (opened : Player.open? settings script = .ok p) :
    p.settings = settings ∧ p.tally = {} ∧ ∃ fresh us, Opened settings script fresh us p.stream := by
  unfold Player.open? Stream.open? at opened
  dsimp only at opened
  cases checked : Options.check { renderAhead := settings.renderAhead } with
  | error e =>
      rw [checked] at opened
      cases opened
  | ok =>
      rw [checked] at opened
      have few : settings.renderAhead.toNat ≤ Options.mostAhead := by
        unfold Options.check at checked
        split at checked
        · cases checked
        · next few => exact Nat.not_lt.1 few
      cases taken : (openFirst script.codec AnyBackend.builtin).2 with
      | error e =>
          simp only [Prod.map, taken] at opened
          cases opened
      | ok b =>
          simp only [Prod.map, taken] at opened
          cases opened
          obtain ⟨fresh, builtin, answer⟩ := openFirst_ok taken
          obtain ⟨picture, accepts⟩ := accepts_of_init builtin answer
          have start : Opened settings script fresh [.init script.codec]
              (Stream.ofBackend script.codec (.ofPackets script.packets) { renderAhead := settings.renderAhead } b) := by
            refine ⟨builtin, picture, few, rfl, (congrArg Prod.snd answer).symm, { state := b }, none, ?_⟩
            rw [Stream.ofBackend, Stream.ofBackend, accepts]
          refine ⟨rfl, rfl, fresh, ?_⟩
          cases script.video with
          | none => exact ⟨_, start⟩
          | some video => exact start.noteVideo video

/-! ## Uses -/

/-- The latest render came to this frame, and the size told since is the same; or there was no render yet. -/
def LatestIs (fresh : AnyBackend) (us : List Use) : Option Frame → Prop
  | none => latestRender? us = none
  | some e => ∃ g pts older, latestRender? us = some (g, pts, older) ∧ renderAfter fresh older g pts = .ok e ∧
      sizeTold us = sizeTold older

/-- Renders among the uses came to these frames, and the latest of all to the first of them. -/
structure Recorded (fresh : AnyBackend) (us : List Use) (before : List Frame) : Prop where
  drawn : ∀ e ∈ before, Drawn fresh us e
  latest : LatestIs fresh us before.head?

variable {before : List Frame}

theorem sizeTold_decodes (ps : List Packet) (us : List Use) : sizeTold (ps.map .decode ++ us) = sizeTold us := by
  induction ps with
  | nil => rfl
  | cons p ps ih => exact ih

theorem latestRender?_decodes (ps : List Packet) (us : List Use) :
    latestRender? (ps.map .decode ++ us) = latestRender? us := by
  induction ps with
  | nil => rfl
  | cons p ps ih => exact ih

theorem Recorded.decodes (recorded : Recorded fresh us before) (ps : List Packet) :
    Recorded fresh (ps.map .decode ++ us) before := by
  refine ⟨fun e member => (recorded.drawn e member).later _, ?_⟩
  have latest := recorded.latest
  cases before with
  | nil => exact (latestRender?_decodes ps us).trans latest
  | cons e before =>
      obtain ⟨g, pts, older, render, drew, size⟩ := latest
      exact ⟨g, pts, older, (latestRender?_decodes ps us).trans render, drew, (sizeTold_decodes ps us).trans size⟩

theorem Recorded.render (recorded : Recorded fresh us before) {g : Geometry} {pts : Binary64} {f : Frame}
    (answer : renderAfter fresh us g pts = .ok f) : Recorded fresh (.render g pts :: us) (f :: before) := by
  refine ⟨List.forall_mem_cons.2 ⟨drawn_now answer, fun e member => (recorded.drawn e member).later [_]⟩, ?_⟩
  exact ⟨g, pts, us, rfl, answer, rfl⟩

/-- A frame rendered now has a number that tells. -/
theorem Recorded.tells (recorded : Recorded fresh us before) (builtin : fresh ∈ AnyBackend.builtin) {g : Geometry}
    {pts : Binary64} {f : Frame} (answer : renderAfter fresh us g pts = .ok f) :
    Tells False before.head? before f := by
  by_cases number : f.changeId = 0
  · obtain ⟨g', pts', older, e, latest, answer', same⟩ :=
      AnyBackend.zerosRepeat_of_builtin builtin us g pts f answer number
    cases before with
    | nil => exact absurd (recorded.latest.symm.trans latest) nofun
    | cons e' before =>
        obtain ⟨_, _, _, latest', drew, size⟩ := recorded.latest
        obtain ⟨rfl, rfl, rfl⟩ := Option.some.inj (latest.symm.trans latest')
        obtain rfl := Except.ok.inj (drew.symm.trans answer')
        exact .inl ⟨e', rfl, same size⟩
  · exact (AnyBackend.numbersGrow_of_builtin builtin).tells answer number recorded.drawn

/-! ## From frame to frame -/

/-- What is kept of a stream that renders nothing ahead. -/
structure OnDemand (settings : PlaySettings) (fresh : AnyBackend) (before : List Frame) (s : Stream AnyBackend) :
    Prop where
  idle : s.threaded = false ∨ (s.geometry.isVoid = true ∧ settings.geometry.isVoid = true)
  recorded : ∃ us, s.backend.state = afterUses fresh us ∧ Recorded fresh us before

theorem OnDemand.decodes {t : Stream AnyBackend} (kept : OnDemand settings fresh before s) (decodes : s.Decodes t) :
    OnDemand settings fresh before t := by
  obtain ⟨us, state, recorded⟩ := kept.recorded
  obtain ⟨ps, state'⟩ := decodes.state
  refine ⟨?_, ps.map .decode ++ us, ?_, recorded.decodes ps⟩
  · rw [decodes.threaded, decodes.geometry]
    exact kept.idle
  · rw [state', state, afterUses_append]

theorem decodes_readFor (idle : s.threaded = false ∨ s.geometry.isVoid = true) (settings : PlaySettings) (index : Nat) :
    s.Decodes (readFor settings index s) := by
  have read := Stream.decodes_prepare (settings.ptsOf index) s
  exact read.trans (Stream.decodes_settle (by rwa [read.threaded, read.geometry]))

theorem decodes_readForFirst (idle : s.threaded = false ∨ s.geometry.isVoid = true) (settings : PlaySettings)
    (count : Nat) : s.Decodes (readForFirst settings count s) := by
  induction count with
  | zero => exact .refl s
  | succ count ih => exact ih.trans (decodes_readFor (by rwa [ih.threaded, ih.geometry]) settings count)

theorem decodes_rest (idle : s.threaded = false ∨ s.geometry.isVoid = true) : s.Decodes (rest s) := by
  obtain ⟨threaded, geometry, state⟩ := Stream.decodes_settle idle
  exact ⟨threaded, geometry, state⟩

/-- Between two frames packets are decoded, and what is shown was rendered last. -/
theorem upholds_onDemand (builtin : fresh ∈ AnyBackend.builtin) (excused : Nat → Prop) :
    Upholds settings excused (OnDemand settings fresh) := by
  intro before s f out back kept acquired released
  have idle := kept.idle.imp_right And.left
  have kept' := kept.decodes (decodes_readFor idle settings (before.length + settings.renderAhead.toNat))
  obtain ⟨us, state, recorded⟩ := kept'.recorded
  obtain ⟨-, drawn, state', threaded, void⟩ := Stream.acquire_onDemand (kept'.idle.imp_right And.right) acquired
  rw [state] at drawn state'
  have answer : renderAfter fresh us settings.geometry (settings.ptsOf before.length) = .ok f.frame := drawn
  obtain ⟨backend, threaded', geometry⟩ := Stream.release_backend released
  have back' : OnDemand settings fresh (f.frame :: before) back := by
    refine ⟨?_, .render settings.geometry (settings.ptsOf before.length) :: us, ?_, recorded.render answer⟩
    · rw [threaded', threaded, geometry]
      obtain alone | ⟨-, pixels⟩ := kept'.idle
      · exact .inl alone
      · exact void.imp_right fun void => ⟨void, pixels⟩
    · rw [backend, state']
      rfl
  obtain same | fresh' | ⟨-, never⟩ := recorded.tells builtin answer
  · exact ⟨.inl same, back'.decodes (decodes_rest (back'.idle.imp_right And.left))⟩
  · exact ⟨.inr (.inl fresh'), back'.decodes (decodes_rest (back'.idle.imp_right And.left))⟩
  · exact never.elim

/-- No frame is waited for. -/
theorem attends_onDemand : Attends settings (OnDemand settings fresh) := by
  intro before s kept stalled
  have read := kept.decodes (decodes_readFor (kept.idle.imp_right And.left) settings
    (before.length + settings.renderAhead.toNat))
  exact absurd stalled (Stream.acquire_onDemand_ne_stalled (read.idle.imp_right And.right) _)

end Player
end Subtitles
