/-
# Proofs.TextBackend.Visible: the events shown at a time

The backend looks for the end of an event without a stop among the events behind it in its store.
Since the store is in order, the first one there with another start is the earliest that starts later
at all, so what is active at a time is what `VisibleAmong` says of all accepted events
(`mem_active`). Texts and renders are of just these events, in order (`shows_visible`).
-/
import Subtitles.Proofs.TextBackend.Store
namespace Subtitles

set_option autoImplicit false

namespace Event

variable {e f : Event} {es fs passed later : List Event} {pts : Binary64}

/-- Visible at a time, given all events: it has started and not ended. An event without a stop ends
where any event starts later than it did. -/
def VisibleAmong (es : List Event) (pts : Binary64) (e : Event) : Prop :=
  e.start ≤ pts ∧
    match e.stop with
    | some stop => pts < stop
    | none => ∀ f ∈ es, ¬ (e.start < f.start ∧ f.start ≤ pts)

theorem visibleAmong_perm (perm : es.Perm fs) : e.VisibleAmong es pts ↔ e.VisibleAmong fs pts := by
  unfold VisibleAmong
  cases e.stop with
  | some stop => rfl
  | none => simp only [perm.mem_iff]

/-- In a store in order, only the first later start among the events behind an event matters. -/
theorem ends_iff (sorted : (passed ++ e :: later).Pairwise Earlier) (open_ : e.stop = none)
    (numbers : ∀ f ∈ later, f.start.isNaN = false) (started : e.start ≤ pts) :
    (e.visibleUntil later).all (fun stop => decide (pts < stop)) = true ↔
      ∀ f ∈ passed ++ e :: later, ¬ (e.start < f.start ∧ f.start ≤ pts) := by
  obtain ⟨-, behind, across⟩ := List.pairwise_append.1 sorted
  -- No event up to this one starts later than it.
  have upTo : (∀ f ∈ passed ++ e :: later, ¬ (e.start < f.start ∧ f.start ≤ pts)) ↔
      ∀ f ∈ later, ¬ (e.start < f.start ∧ f.start ≤ pts) := by
    refine ⟨fun none f member => none f (by simp [member]), fun none f member => ?_⟩
    rcases List.mem_append.1 member with before | member
    · exact fun both => (across f before e List.mem_cons_self).not_lt both.1
    · rcases List.mem_cons.1 member with rfl | after
      · exact fun both => Binary64.lt_irrefl _ both.1
      · exact none f after
  rw [upTo, visibleUntil, open_]
  cases found : later.find? fun f => decide (e.start < f.start) with
  | none =>
      have never : ∀ f ∈ later, ¬ e.start < f.start := by simpa using found
      simpa using fun f member after => absurd after (never f member)
  | some k =>
      obtain ⟨starts, front, back, rfl, before⟩ := List.find?_eq_some_iff_append.1 found
      have starts : e.start < k.start := by simpa using starts
      have number : k.start.isNaN = false := numbers k (by simp)
      have comparable : k.start.Comparable pts := ⟨number, started.1.2⟩
      have earliest : ∀ f ∈ back, k.start ≤ f.start := fun f member =>
        (List.rel_of_pairwise_cons (List.pairwise_append.1 behind.of_cons).2.1 member).le
      simp only [Option.map_some, Option.all_some, decide_eq_true_eq]
      constructor
      · rintro ahead f member ⟨after, reached⟩
        rcases List.mem_append.1 member with inFront | member
        · exact absurd after (by simpa using before f inFront)
        · rcases List.mem_cons.1 member with rfl | inBack
          · exact Binary64.not_le_of_lt ahead reached
          · exact Binary64.not_le_of_lt ahead (Binary64.le_trans (earliest f inBack) reached)
      · intro none
        exact Binary64.lt_of_not_le comparable fun reached => none k (by simp) ⟨starts, reached⟩

theorem visibleAmong_iff (pts : Binary64) (sorted : (passed ++ e :: later).Pairwise Earlier)
    (numbers : ∀ f ∈ later, f.start.isNaN = false) :
    e.VisibleAmong (passed ++ e :: later) pts ↔
      e.start ≤ pts ∧ (e.visibleUntil later).all (fun stop => decide (pts < stop)) = true := by
  cases stop : e.stop with
  | some stop => simp [VisibleAmong, visibleUntil, stop]
  | none =>
      simp only [VisibleAmong, stop]
      exact and_congr_right fun started => (ends_iff sorted stop numbers started).symm

/-- What a walk through the store picks from the events it has not passed. -/
theorem mem_visibleAt (passed : List Event) (sorted : (passed ++ es).Pairwise Earlier)
    (numbers : ∀ f ∈ es, f.start.isNaN = false) :
    e ∈ visibleAt pts es ↔ e ∈ es ∧ e.VisibleAmong (passed ++ es) pts := by
  induction es generalizing passed with
  | nil => simp [visibleAt]
  | cons f later ih =>
      have onward : passed ++ f :: later = (passed ++ [f]) ++ later := by simp
      have rest : e ∈ visibleAt pts later ↔ e ∈ later ∧ e.VisibleAmong (passed ++ f :: later) pts := by
        rw [onward] at sorted ⊢
        exact ih _ sorted (List.forall_mem_of_forall_mem_cons numbers)
      have here := visibleAmong_iff pts sorted (List.forall_mem_of_forall_mem_cons numbers)
      rw [visibleAt, List.mem_cons, or_and_right]
      split
      · next visible =>
          have shown : e = f ∧ e.VisibleAmong (passed ++ f :: later) pts ↔ e = f :=
            and_iff_left_of_imp fun same => same ▸ here.2 visible
          rw [List.mem_cons, rest, shown]
      · next hidden =>
          have unseen : ¬ (e = f ∧ e.VisibleAmong (passed ++ f :: later) pts) :=
            fun both => hidden (here.1 (both.1 ▸ both.2))
          rw [rest, or_iff_right unseen]

/-- The texts of events that have any, one below the other. -/
def joined (es : List Event) : Option String :=
  let texts := (es.map (·.text)).filter (· ≠ "")
  if texts.isEmpty then none else some ("\n".intercalate texts)

end Event

namespace TextBackend

open LoggedBackend (Served)

variable {b : TextBackend} {es : List Event} {e : Event} {pts : Binary64}

theorem Stored.mem_active (stored : b.Stored es) : e ∈ b.active pts ↔ e ∈ es ∧ e.VisibleAmong es pts := by
  have walked : e ∈ b.active pts ↔ e ∈ b.events ∧ e.VisibleAmong b.events pts :=
    Event.mem_visibleAt [] stored.sorted fun f member => stored.numbers f (stored.perm.mem_iff.1 member)
  rw [walked, stored.perm.mem_iff, Event.visibleAmong_perm stored.perm]

theorem Stored.sorted_active (stored : b.Stored es) (pts : Binary64) : (b.active pts).Pairwise Event.Earlier :=
  stored.sorted.sublist (Event.visibleAt_sublist pts b.events)

/-- Whatever a backend was asked to do before, and in whatever order its packets came, it shows at a
time the events accepted that are visible then, by their starts and equal starts by arrival. -/
theorem shows_visible {b : LoggedBackend TextBackend} (served : Served {} b)
    (numbers : ∀ p ∈ decoded b.calls, ∀ t, p.pts = some t → t.isNaN = false) (pts : Binary64) :
    ∃ shown : List Event,
      (∀ e, e ∈ shown ↔
        e ∈ accepted (decoded b.calls) ∧ e.VisibleAmong (accepted (decoded b.calls)) pts) ∧
      shown.Pairwise Event.Earlier ∧
      (b.text pts).1 = Event.joined shown ∧
      ∀ purpose g, g.isVoid = false → ∃ changeId,
        (b.render purpose g pts).1 =
          (TextLayout.parts g b.state.atTop color (visibleLines shown)).map fun parts =>
            ⟨if parts.isEmpty then .empty else .alpha8, parts, changeId⟩ := by
  have stored := stored_of_served served numbers
  refine ⟨b.state.active pts, fun e => stored.mem_active, stored.sorted_active pts, rfl, fun purpose g filled => ?_⟩
  have content : b.state.content g pts =
      TextLayout.parts g b.state.atTop color (visibleLines (b.state.active pts)) := by
    rw [TextBackend.content, filled, if_neg Bool.false_ne_true]
  refine ⟨(b.state.noteKey (b.state.key g pts)).1, ?_⟩
  rw [LoggedBackend.answer_render, ← content]
  rfl

/-- Lines that arrive in no order. The line from 1 without a stop ends where the one from 2 starts. -/
def latecomers : List Packet :=
  [.ofText (some (.ofNat 2)) none "then", .ofText (some .one) none "first", .ofText none none "never",
    .ofText (some .one) (some (.ofNat 4)) "throughout\r\n", .ofText (some .one) none "first"]

def latecomersDecoded : LoggedBackend TextBackend :=
  latecomers.foldl (fun b p => b.decode p) { state := {} }

theorem shows_visible_latecomers :
    Served {} latecomersDecoded ∧
      (∀ p ∈ decoded latecomersDecoded.calls, ∀ t, p.pts = some t → t.isNaN = false) ∧
      (accepted latecomers).map (·.text) = ["then", "first", "throughout"] ∧
      ∃ shown : List Event,
        (∀ e, e ∈ shown ↔ e ∈ accepted latecomers ∧ e.VisibleAmong (accepted latecomers) (.ofNat 3)) ∧
        shown.Pairwise Event.Earlier ∧ Event.joined shown = some "throughout\nthen" := by
  have served : Served {} latecomersDecoded := Served.start.decodes latecomers
  have log : decoded latecomersDecoded.calls = latecomers := by decide +kernel
  have numbers : ∀ p ∈ latecomers, ∀ t, p.pts = some t → t.isNaN = false := by decide +kernel
  have text : (latecomersDecoded.text (.ofNat 3)).1 = some "throughout\nthen" := by decide +kernel
  obtain ⟨shown, members, sorted, joined, -⟩ := shows_visible served (log.symm ▸ numbers) (.ofNat 3)
  rw [log] at members ⊢
  exact ⟨served, numbers, by decide +kernel, shown, members, sorted, joined.symm.trans text⟩

end TextBackend
end Subtitles
