/-
# Proofs.Uses: a backend used by itself

Uses are calls that any owner of a backend can make, in any order; a list of them has the latest
first. `afterUses` is the state they lead to. `Repeatable` says which render a change number can
refer to: the one before, if there is no reset in between.
-/
import Subtitles.Backend
namespace Subtitles

set_option autoImplicit false

inductive Use
  | init (codec : Codec)
  | decode (p : Packet)
  | render (g : Geometry) (pts : Binary64)
  | text (pts : Binary64)
  | control (c : Command)
  | reset
  deriving DecidableEq, Repr

namespace Use

variable {σ : Type} [Backend σ]

/-- What a use makes of a state. -/
def on (b : σ) : Use → σ
  | .init codec => (Backend.init codec b).2
  | .decode p => Backend.decode p b
  | .render g pts => (Backend.render g pts b).2
  | .text pts => (Backend.text pts b).2
  | .control c => (Backend.control c b).2
  | .reset => Backend.reset b

/-- Change numbers look past it. -/
def passes : Use → Bool
  | .render .. | .reset => false
  | _ => true

end Use

variable {σ : Type} [Backend σ]

/-- The state after uses, the latest first. -/
def afterUses (fresh : σ) : List Use → σ
  | [] => fresh
  | u :: us => u.on (afterUses fresh us)

theorem afterUses_append (fresh : σ) (newer older : List Use) :
    afterUses fresh (newer ++ older) = afterUses (afterUses fresh older) newer := by
  induction newer with
  | nil => rfl
  | cons u newer ih => rw [List.cons_append, afterUses, afterUses, ih]

theorem afterUses_decodes (ps : List Packet) (b : σ) :
    ps.foldl (fun b p => Backend.decode p b) b = afterUses b (ps.reverse.map .decode) := by
  induction ps generalizing b with
  | nil => rfl
  | cons p ps ih =>
      rw [List.foldl_cons, ih, List.reverse_cons, List.map_append, afterUses_append]
      rfl

/-- What a render comes to after uses. -/
def renderAfter (fresh : σ) (us : List Use) (g : Geometry) (pts : Binary64) : Except Fault Frame :=
  (Backend.render g pts (afterUses fresh us)).1

/-- The change number of a render after uses, unless it faults. -/
def numberAfter? (fresh : σ) (us : List Use) (g : Geometry) (pts : Binary64) : Option Nat :=
  (renderAfter fresh us g pts).toOption.map (·.changeId)

theorem renderAfter_of_number {fresh : σ} {us : List Use} {g : Geometry} {pts : Binary64} {n : Nat}
    (number : numberAfter? fresh us g pts = some n) : ∃ f, renderAfter fresh us g pts = .ok f ∧ f.changeId = n := by
  unfold numberAfter? at number
  cases answer : renderAfter fresh us g pts with
  | error fault => simp [answer, Except.toOption] at number
  | ok f => exact ⟨f, rfl, by simpa [answer, Except.toOption] using number⟩

/-- The latest render comes right behind `older`, with no reset since. -/
def Repeatable (us : List Use) (g : Geometry) (pts : Binary64) (older : List Use) : Prop :=
  ∃ newer, us = newer ++ .render g pts :: older ∧ ∀ u ∈ newer, u.passes = true

theorem Repeatable.now (g : Geometry) (pts : Binary64) (us : List Use) :
    Repeatable (.render g pts :: us) g pts us :=
  ⟨[], rfl, nofun⟩

theorem Repeatable.later {us older : List Use} {g : Geometry} {pts : Binary64} (before : Repeatable us g pts older)
    {u : Use} (passes : u.passes = true) : Repeatable (u :: us) g pts older := by
  obtain ⟨newer, rfl, passed⟩ := before
  exact ⟨u :: newer, rfl, List.forall_mem_cons.2 ⟨passes, passed⟩⟩

/-- The latest render, if there was one since the last reset, and the uses before it. -/
def latestRender? : List Use → Option (Geometry × Binary64 × List Use)
  | [] | .reset :: _ => none
  | .render g pts :: older => some (g, pts, older)
  | .init _ :: us | .decode _ :: us | .text _ :: us | .control _ :: us => latestRender? us

theorem latestRender?_cons {u : Use} (passes : u.passes = true) (us : List Use) :
    latestRender? (u :: us) = latestRender? us := by
  cases u with
  | render => cases passes
  | reset => cases passes
  | _ => rfl

theorem Repeatable.latestRender?_eq {us older : List Use} {g : Geometry} {pts : Binary64}
    (before : Repeatable us g pts older) : latestRender? us = some (g, pts, older) := by
  obtain ⟨newer, rfl, passed⟩ := before
  induction newer with
  | nil => rfl
  | cons u newer ih =>
      obtain ⟨passes, rest⟩ := List.forall_mem_cons.1 passed
      rw [List.cons_append, latestRender?_cons passes, ih rest]

/-- A frame that one of the renders came to. -/
def Drawn (fresh : σ) (us : List Use) (f : Frame) : Prop :=
  ∃ newer g pts older, us = newer ++ .render g pts :: older ∧ renderAfter fresh older g pts = .ok f

theorem Drawn.later {fresh : σ} {us : List Use} {f : Frame} (drawn : Drawn fresh us f) (newer : List Use) :
    Drawn fresh (newer ++ us) f := by
  obtain ⟨between, g, pts, older, rfl, answer⟩ := drawn
  exact ⟨newer ++ between, g, pts, older, (List.append_assoc ..).symm, answer⟩

theorem drawn_now {fresh : σ} {us : List Use} {g : Geometry} {pts : Binary64} {f : Frame}
    (answer : renderAfter fresh us g pts = .ok f) : Drawn fresh (.render g pts :: us) f :=
  ⟨[], g, pts, us, rfl, answer⟩

/-- The number of a frame tells what there is to tell after these frames: it shows what the previous one showed,
or its number is none of theirs and not 0; or the number is 0, and that is excused. -/
def Tells (excused : Prop) (previous : Option Frame) (before : List Frame) (f : Frame) : Prop :=
  (∃ e, previous = some e ∧ f.SameContent e) ∨ (f.changeId ≠ 0 ∧ ∀ e ∈ before, e.changeId ≠ f.changeId) ∨
    (f.changeId = 0 ∧ excused)

theorem Tells.imp {excused excused' : Prop} {previous : Option Frame} {before : List Frame} {f : Frame}
    (tells : Tells excused previous before f) (excuse : excused → excused') : Tells excused' previous before f :=
  tells.imp_right fun tells => tells.imp_right fun zero => zero.imp_right excuse

/-- Numbers other than 0 grow: each is greater than those of all frames drawn before. -/
def NumbersGrow (fresh : σ) : Prop :=
  ∀ us g pts f, renderAfter fresh us g pts = .ok f → f.changeId ≠ 0 → ∀ e, Drawn fresh us e → e.changeId < f.changeId

theorem NumbersGrow.tells {fresh : σ} (grow : NumbersGrow fresh) {us : List Use} {g : Geometry} {pts : Binary64}
    {f : Frame} {excused : Prop} {previous : Option Frame} {before : List Frame}
    (answer : renderAfter fresh us g pts = .ok f) (number : f.changeId ≠ 0) (drawn : ∀ e ∈ before, Drawn fresh us e) :
    Tells excused previous before f :=
  .inr (.inl ⟨number, fun e member => Nat.ne_of_lt (grow us g pts f answer number e (drawn e member))⟩)

end Subtitles
