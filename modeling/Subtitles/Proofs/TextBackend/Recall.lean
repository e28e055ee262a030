/-
# Proofs.TextBackend.Recall: the log tells the state

What was decoded and the command to align that came last are all that a render of text depends on, and
both can be read off the log. `recalled` is the state they come to. Whatever a backend was asked to do, it
has the events and the alignment that its log recalls (`sameEvents_recalled`), so every frame in the
log was drawn in the state that the calls before it recall (`draws_of_logged`).
-/
import Subtitles.Proofs.TextBackend.Changes
namespace Subtitles

set_option autoImplicit false

/-- The alignment of a command to align. -/
def Call.top? : Call → Option Bool
  | .control (.top atTop) => some atTop
  | _ => none

/-- The alignment that was asked for last. Text is at the bottom at first. -/
def alignment (calls : List Call) : Bool := (calls.findSome? Call.top?).getD false

theorem alignment_append {new : List Call} (other : ∀ c ∈ new, c.top? = none) (calls : List Call) :
    alignment (new ++ calls) = alignment calls := by
  rw [alignment, List.findSome?_append, List.findSome?_eq_none_iff.2 other, Option.none_or]
  rfl

namespace TextBackend

open LoggedBackend (Served)

/-- The state that calls come to, but for what change numbers are told by. -/
def recalled (calls : List Call) : TextBackend :=
  { ({} : TextBackend).decodes (decoded calls) with atTop := alignment calls }

/-- Calls that neither decode nor align are passed over. -/
theorem recalled_append {new : List Call} (other : ∀ c ∈ new, c.packet? = none ∧ c.top? = none) (calls : List Call) :
    recalled (new ++ calls) = recalled calls := by
  have nothing : decoded new = [] := decoded_eq_nil_iff.2 fun c member => (other c member).1
  rw [recalled, decoded_append, nothing, List.append_nil, alignment_append fun c member => (other c member).2]
  rfl

theorem recalled_cons {c : Call} (decodes : c.packet? = none) (aligns : c.top? = none) (calls : List Call) :
    recalled (c :: calls) = recalled calls :=
  recalled_append (List.forall_mem_singleton.2 ⟨decodes, aligns⟩) calls

/-- Decoding leaves the alignment alone, and does not look at it. -/
theorem decode_align (p : Packet) (b : TextBackend) (v : Bool) :
    { b with atTop := v }.decode p = { b.decode p with atTop := v } := by
  unfold TextBackend.decode
  cases readable? p with
  | none => rfl
  | some content =>
      dsimp only
      split <;> rfl

theorem recalled_decode (p : Packet) (calls : List Call) :
    recalled (.decode p :: calls) = (recalled calls).decode p := by
  rw [recalled, recalled, decode_align, decoded_decode, decodes_append]
  rfl

theorem recalled_top (v : Bool) (calls : List Call) :
    recalled (.control (.top v) :: calls) = { recalled calls with atTop := v } := by
  have decoded : decoded (.control (.top v) :: calls) = decoded calls := by
    rw [decoded, List.filterMap_cons_none rfl]
    rfl
  rw [recalled, decoded]
  rfl

/-- A command that does not align leaves everything as it is. -/
theorem control_of_not_top {c : Command} (other : Call.top? (.control c) = none) (b : TextBackend) :
    (b.control c).2 = b := by
  cases c with
  | top v => cases other
  | step pts movement =>
      rw [control]
      split <;> rfl
  | _ => rfl

theorem sameEvents_recalled {b : LoggedBackend TextBackend} (served : Served {} b) :
    b.state.SameEvents (recalled b.calls) := by
  induction served with
  | start => exact .refl _
  | @decode b p _ ih =>
      rw [LoggedBackend.decode, recalled_decode]
      exact ih.decode p
  | @render b purpose g pts _ ih =>
      have drawn := (sameEvents_render b.state g pts).trans ih
      obtain ⟨frame, -, rendered⟩ | ⟨fault, -, rendered⟩ := b.render_cases purpose g pts
      · rw [rendered, recalled_cons rfl rfl]
        exact drawn
      · rw [rendered]
        exact drawn
  | @text b pts _ ih =>
      have log : (b.text pts).2.calls = .text pts :: b.calls := rfl
      rw [log, recalled_cons rfl rfl]
      exact ih
  | @reset b _ ih =>
      have log : b.reset.calls = .reset :: b.calls := rfl
      rw [log, recalled_cons rfl rfl]
      exact ⟨ih.events, ih.nextId, ih.atTop⟩
  | @select b on _ ih =>
      have log : (b.select on).calls = .select on :: b.calls := rfl
      rw [log, recalled_cons rfl rfl]
      exact ih
  | @control b c _ ih =>
      have log : (b.control c).2.calls = .control c :: b.calls := rfl
      have state : (b.control c).2.state = (b.state.control c).2 := rfl
      rw [log, state]
      cases aligns : Call.top? (.control c) with
      | none =>
          rw [recalled_cons rfl aligns, control_of_not_top aligns]
          exact ih
      | some v =>
          cases c with
          | top w =>
              rw [recalled_top]
              exact ⟨ih.events, ih.nextId, rfl⟩
          | _ => cases aligns

/-- A frame in the log shows what the calls before it recall. -/
theorem draws_of_logged {b : LoggedBackend TextBackend} (served : Served {} b) {purpose : Purpose} {pts : Binary64}
    {g : Geometry} {frame : Frame} {older : List Call}
    (logged : .render purpose pts g frame :: older <:+ b.calls) : (recalled older).Draws g pts frame := by
  induction served with
  | start => exact absurd (List.suffix_nil.1 logged) nofun
  | @render b p' g' pts' served ih =>
      obtain ⟨answer, drew, rendered⟩ | ⟨fault, -, rendered⟩ := b.render_cases p' g' pts'
      · rw [rendered] at logged
        rcases List.suffix_cons_iff.1 logged with same | before
        · obtain ⟨now, rfl⟩ := List.cons.inj same
          cases now
          have draws := (render_cases b.state g pts).1 frame (congrArg Prod.fst drew)
          exact draws.of_sameEvents (sameEvents_recalled served)
        · exact ih before
      · rw [rendered] at logged
        exact ih logged
  | decode p _ ih => exact ih ((List.suffix_cons_iff.1 logged).resolve_left (by simp))
  | text pts' _ ih => exact ih ((List.suffix_cons_iff.1 logged).resolve_left (by simp))
  | reset _ ih => exact ih ((List.suffix_cons_iff.1 logged).resolve_left (by simp))
  | select on _ ih => exact ih ((List.suffix_cons_iff.1 logged).resolve_left (by simp))
  | control c _ ih => exact ih ((List.suffix_cons_iff.1 logged).resolve_left (by simp))

end TextBackend
end Subtitles
