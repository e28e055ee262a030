/-
# Proofs.TextBackend.Agreement: text and picture agree on what there is to see

A text is asked for of the events that have one, a picture of the lines that are not blank. The two
agree since no event is kept with a text of blanks alone: blanks are taken off the end of a text when
it is decoded (`Normalised`). So a text that is left has a character to see at its end, and that
character is in one of its lines (`exists_visible_line`).
-/
import Subtitles.Proofs.TextBackend.Indicator
import Subtitles.Proofs.TextBackend.Layout
namespace Subtitles

set_option autoImplicit false

/-! ## Lines of a text -/

namespace Text

variable {cs : List Char} {c : Char}

theorem mem_of_mem_intercalate {separator : List Char} {texts : List (List Char)}
    (member : c ∈ separator.intercalate texts) : c ∈ separator ∨ ∃ text ∈ texts, c ∈ text := by
  induction texts with
  | nil => simp [List.intercalate] at member
  | cons text rest ih =>
      cases rest with
      | nil => exact .inr ⟨text, List.mem_cons_self, by simpa [List.intercalate] using member⟩
      | cons next rest =>
          have parts : separator.intercalate (text :: next :: rest) =
              text ++ separator ++ separator.intercalate (next :: rest) := by
            simp [List.intercalate]
          rw [parts, List.mem_append, List.mem_append] at member
          rcases member with (here | between) | later
          · exact .inr ⟨text, List.mem_cons_self, here⟩
          · exact .inl between
          · exact (ih later).imp_right fun ⟨found, there, inside⟩ =>
              ⟨found, List.mem_cons_of_mem _ there, inside⟩

theorem mem_withoutReturn {line : List Char} (member : c ∈ line) (other : c ≠ '\r') : c ∈ withoutReturn line := by
  unfold withoutReturn
  split
  · next last =>
      rw [← List.dropLast_append_getLast? _ last, List.mem_append] at member
      exact member.resolve_right fun ends => other (List.mem_singleton.1 ends)
  · exact member

/-- Only line feeds and carriage returns are lost by cutting a text into lines. -/
theorem exists_line (member : c ∈ cs) (feed : c ≠ '\n') (carriageReturn : c ≠ '\r') :
    ∃ line ∈ lines cs, c ∈ line := by
  rw [← intercalate_pieces cs] at member
  obtain ends | ⟨piece, there, inside⟩ := mem_of_mem_intercalate member
  · exact absurd (List.mem_singleton.1 ends) feed
  · unfold lines
    cases last : (pieces cs).getLast? with
    | none =>
        rw [List.getLast?_eq_none_iff.1 last] at there
        cases there
    | some final =>
        rw [← List.dropLast_append_getLast? _ last, List.mem_append, List.mem_singleton] at there
        rcases there with front | rfl
        · exact ⟨withoutReturn piece, List.mem_append_left _ (List.mem_map_of_mem front),
            mem_withoutReturn inside carriageReturn⟩
        · refine ⟨piece, List.mem_append_right _ (List.mem_filter.2 ⟨by simp [last], ?_⟩), inside⟩
          exact decide_eq_true (List.ne_nil_of_mem inside)

/-- A text without blanks at its end ends in something to see. -/
theorem exists_visible_of_trimEnd (some : trimEnd cs ≠ []) : ∃ c ∈ trimEnd cs, isBlank c = false := by
  have rest : cs.reverse.dropWhile isBlank ≠ [] := fun none => some (by rw [trimEnd, none, List.reverse_nil])
  refine ⟨_, List.mem_reverse.2 (List.head_mem rest), ?_⟩
  simpa using List.head_dropWhile_not isBlank rest

/-- A text without blanks at its end has a line to see, unless it is empty. -/
theorem exists_visible_line (some : trimEnd cs ≠ []) : ∃ line ∈ lines (trimEnd cs), allBlank line = false := by
  obtain ⟨c, member, visible⟩ := exists_visible_of_trimEnd some
  obtain ⟨line, there, inside⟩ := exists_line member (fun feed => by simp [feed, isBlank, blankRanges] at visible)
    (fun carriageReturn => by simp [carriageReturn, isBlank, blankRanges] at visible)
  refine ⟨line, there, ?_⟩
  rw [allBlank, List.all_eq_false]
  exact ⟨c, inside, by rw [visible]; exact Bool.false_ne_true⟩

end Text

/-! ## Events with something to see -/

namespace TextBackend

variable {b : TextBackend} {es : List Event} {g : Geometry} {pts : Binary64} {f : Frame}

/-- The texts of events are as decoding leaves them. -/
def Normalised (es : List Event) : Prop := ∀ e ∈ es, ∃ text, e.text = Event.normalise text

theorem normalised_decode (normal : Normalised b.events) (p : Packet) : Normalised (b.decode p).events := by
  unfold decode
  cases read : readable? p with
  | none => exact normal
  | some content =>
      obtain ⟨start, text⟩ := content
      dsimp only
      split
      · exact normal
      · intro e member
        rcases List.mem_cons.1 ((Event.insert_perm _ b.events).mem_iff.1 member) with rfl | old
        · simp only [readable?, Option.bind_eq_bind, Option.bind_eq_some_iff, Option.pure_def] at read
          obtain ⟨time, -, decoded, -, pair⟩ := read
          exact ⟨decoded, (Prod.mk.inj (Option.some.inj pair)).2.symm⟩
        · exact normal e old

theorem normalised_afterUses (us : List Use) : Normalised (afterUses ({} : TextBackend) us).events := by
  induction us with
  | nil => exact fun e member => absurd member List.not_mem_nil
  | cons u us ih =>
      cases u with
      | init codec =>
          show Normalised (init codec (afterUses {} us)).2.events
          rw [init_frame]
          exact ih
      | decode p => exact normalised_decode ih p
      | render g pts =>
          show Normalised (render g pts (afterUses {} us)).2.events
          rw [(sameEvents_render _ g pts).events]
          exact ih
      | control c =>
          show Normalised (control c (afterUses {} us)).2.events
          rw [control_frame]
          exact ih
      | text pts => exact ih
      | reset => exact ih

/-- Events have no line to see exactly when none of them has a text. -/
theorem visibleLines_eq_nil_iff (normal : Normalised es) : visibleLines es = [] ↔ ∀ e ∈ es, e.text = "" := by
  rw [visibleLines, List.filter_eq_nil_iff, List.forall_mem_flatMap]
  refine forall₂_congr fun e member => ⟨fun none => ?_, fun empty line there => ?_⟩
  · obtain ⟨text, normalised⟩ := normal e member
    by_contra some
    have trimmed : e.text.toList = Text.trimEnd (Text.unifyLineEnds text.toList) := by
      rw [normalised, Event.normalise, String.toList_ofList]
    have left : Text.trimEnd (Text.unifyLineEnds text.toList) ≠ [] :=
      trimmed ▸ fun empty => some (String.toList_eq_nil_iff.1 empty)
    obtain ⟨line, there, visible⟩ := Text.exists_visible_line left
    exact none line (trimmed.symm ▸ there) (by simp [visible])
  · rw [empty] at there
    cases there

theorem text?_eq_none_iff (b : TextBackend) (pts : Binary64) :
    b.text? pts = none ↔ ∀ e ∈ b.active pts, e.text = "" := by
  simp [text?, List.filter_eq_nil_iff]

theorem MadeOf.isEmpty_iff {parts : List Part} (made : MadeOf f parts) : f.isEmpty = true ↔ parts = [] := by
  obtain ⟨format, rfl⟩ := made
  cases parts : f.parts with
  | nil => simp [Frame.isEmpty, parts]
  | cons p ps =>
      rw [parts] at format
      simp [Frame.isEmpty, parts, format]

/-- What is drawn of a state is empty exactly where nothing can be rendered or the state has no text. -/
theorem Draws.isEmpty_iff (draws : b.Draws g pts f) (normal : Normalised b.events) :
    f.isEmpty = true ↔ g.isVoid = true ∨ b.text? pts = none := by
  obtain ⟨parts, drawn, made⟩ := draws
  rw [made.isEmpty_iff]
  unfold TextBackend.drawn at drawn
  split at drawn
  · next void =>
      obtain rfl := Except.ok.inj drawn
      simp [void]
  · next filled =>
      have shown : Normalised (b.active pts) := fun e member =>
        normal e ((Event.visibleAt_sublist pts b.events).subset member)
      rw [or_iff_right filled, TextLayout.parts_eq_nil_iff drawn, text?_eq_none_iff, ← visibleLines_eq_nil_iff shown]
      refine ⟨fun empty => List.eq_nil_iff_forall_not_mem.2 fun line there => ?_, fun none line there => ?_⟩
      · obtain ⟨-, visible⟩ := List.mem_filter.1 there
        simp [empty line there, Text.allBlank] at visible
      · rw [none] at there
        cases there

/-- Whatever a backend was used for before, unless the layout overflows, a frame is empty exactly when nothing can
be rendered for its geometry or there is no text at its time. -/
theorem isEmpty_iff_no_text (us : List Use) (g : Geometry) (pts : Binary64) :
    (∃ f, renderAfter ({} : TextBackend) us g pts = .ok f ∧
      (f.isEmpty = true ↔ g.isVoid = true ∨ (Backend.text pts (afterUses ({} : TextBackend) us)).1 = none)) ∨
    ∃ op, renderAfter ({} : TextBackend) us g pts = .error (.overflow op) := by
  obtain ⟨draws, faults, -⟩ := render_cases (afterUses ({} : TextBackend) us) g pts
  cases answer : renderAfter ({} : TextBackend) us g pts with
  | ok f => exact .inl ⟨f, rfl, (draws f answer).isEmpty_iff (normalised_afterUses us)⟩
  | error fault =>
      obtain ⟨op, rfl⟩ := onlyOverflows_drawn _ g _ fault (faults fault answer)
      exact .inr ⟨op, rfl⟩

/-- Blanks alone are no text, and nothing is drawn of them. -/
example : ((renderAfter ({} : TextBackend) [.decode (.ofText (some .one) none "\u2003\r\n")]
      { width := 160, height := 90 } .one).toOption.map Frame.isEmpty,
    (Backend.text .one (afterUses ({} : TextBackend) [.decode (.ofText (some .one) none "\u2003\r\n")])).1) =
      (some true, none) := by
  decide +kernel

end TextBackend
end Subtitles
