/-
# Proofs.TextBackend.Store: what decoding leaves in the store

`accepted` are the events that packets come to, in the order of arrival: those of the packets that
can be read, each repetition dropped. A backend keeps just these, by their starts and equal starts by
arrival, whatever else it was asked to do (`stored_of_served`).
-/
import Subtitles.Proofs.TextBackend.Changes
namespace Subtitles

set_option autoImplicit false

namespace Event

variable {e f k : Event} {es fs : List Event} {start : Binary64} {text : String}

/-- By start, equal starts by arrival. -/
def Earlier (e f : Event) : Prop := e.start < f.start ∨ (e.start.Same f.start ∧ e.id < f.id)

instance (e f : Event) : Decidable (e.Earlier f) := inferInstanceAs (Decidable (_ ∨ _))

theorem Earlier.le (earlier : e.Earlier f) : e.start ≤ f.start := by
  rcases earlier with before | ⟨same, -⟩
  · exact ⟨before.1, Int.le_of_lt before.2⟩
  · exact ⟨same.1, Int.le_of_eq same.2⟩

theorem Earlier.not_lt (earlier : e.Earlier f) : ¬ f.start < e.start :=
  fun after => Binary64.not_le_of_lt after earlier.le

theorem Earlier.of_le (starts : e.start ≤ f.start) (ids : e.id < f.id) : e.Earlier f := by
  rcases Int.lt_or_eq_of_le starts.2 with before | same
  · exact .inl ⟨starts.1, before⟩
  · exact .inr ⟨⟨starts.1, same⟩, ids⟩

/-- Events in order are those that start no later than a time and then those that start after it. -/
theorem exists_split (sorted : es.Pairwise Earlier) (time : Binary64) :
    ∃ front back, es = front ++ back ∧ (∀ f ∈ front, f.start ≤ time) ∧ ∀ f ∈ back, ¬ f.start ≤ time := by
  induction es with
  | nil => exact ⟨[], [], rfl, List.forall_mem_nil _, List.forall_mem_nil _⟩
  | cons e rest ih =>
      by_cases early : e.start ≤ time
      · obtain ⟨front, back, rfl, before, after⟩ := ih sorted.of_cons
        exact ⟨e :: front, back, rfl, List.forall_mem_cons.2 ⟨early, before⟩, after⟩
      · refine ⟨[], e :: rest, rfl, List.forall_mem_nil _, List.forall_mem_cons.2 ⟨early, fun f member le => ?_⟩⟩
        exact early (Binary64.le_trans (List.rel_of_pairwise_cons sorted member).le le)

theorem insert_sorted (sorted : es.Pairwise Earlier) (number : e.start.isNaN = false)
    (numbers : ∀ f ∈ es, f.start.isNaN = false) (latest : ∀ f ∈ es, f.id < e.id) :
    (e.insert es).Pairwise Earlier := by
  obtain ⟨front, back, rfl, before, after⟩ := exists_split sorted e.start
  obtain ⟨inFront, inBack, across⟩ := List.pairwise_append.1 sorted
  rw [insert_append before after]
  refine List.pairwise_append.2 ⟨inFront, List.pairwise_cons.2 ⟨fun f member => ?_, inBack⟩, fun f left k right => ?_⟩
  · have comparable : f.start.Comparable e.start := ⟨numbers f (List.mem_append_right _ member), number⟩
    exact .inl (Binary64.lt_of_not_le comparable (after f member))
  · rcases List.mem_cons.1 right with rfl | right
    · exact .of_le (before f left) (latest f (List.mem_append_left _ left))
    · exact across f left k right

theorem isRepeated_perm (perm : es.Perm fs) : isRepeated start text es = isRepeated start text fs :=
  perm.any_eq

end Event

namespace TextBackend

open LoggedBackend (Served)

variable {b b' : TextBackend} {es : List Event} {p : Packet}

/-- The events with that of one more packet. -/
def accept (es : List Event) (p : Packet) : List Event :=
  match readable? p with
  | none => es
  | some (start, text) =>
    if Event.isRepeated start text es then es
    else es ++ [⟨es.length, start, p.duration.map (start + ·), text⟩]

/-- The events that packets come to, numbered as they arrive. -/
def accepted (ps : List Packet) : List Event := ps.foldl accept []

/-- The store holds these events, which arrived in this order. -/
structure Stored (b : TextBackend) (es : List Event) : Prop where
  perm : b.events.Perm es
  sorted : b.events.Pairwise Event.Earlier
  next : b.nextId = es.length
  below : ∀ e ∈ es, e.id < es.length
  numbers : ∀ e ∈ es, e.start.isNaN = false

theorem Stored.congr (stored : b.Stored es) (events : b'.events = b.events) (next : b'.nextId = b.nextId) :
    b'.Stored es :=
  ⟨events ▸ stored.perm, events ▸ stored.sorted, next ▸ stored.next, stored.below, stored.numbers⟩

theorem Stored.decode (stored : b.Stored es) (number : ∀ t, p.pts = some t → t.isNaN = false) :
    (b.decode p).Stored (accept es p) := by
  unfold TextBackend.decode accept
  cases read : readable? p with
  | none => exact stored
  | some content =>
      obtain ⟨start, text⟩ := content
      dsimp only
      rw [Event.isRepeated_perm stored.perm]
      split
      · exact stored
      · rw [stored.next]
        have number := number start (pts_of_readable? read)
        have placed := Event.insert_perm ⟨es.length, start, p.duration.map (start + ·), text⟩ b.events
        refine ⟨(placed.trans (stored.perm.cons _)).trans (List.perm_append_singleton _ _).symm, ?_, ?_, ?_, ?_⟩
        · exact Event.insert_sorted stored.sorted number
            (fun f member => stored.numbers f (stored.perm.mem_iff.1 member))
            (fun f member => stored.below f (stored.perm.mem_iff.1 member))
        · simp
        · refine List.forall_mem_append.2 ⟨fun e member => ?_, by simp⟩
          have below := stored.below e member
          rw [List.length_append]
          omega
        · exact List.forall_mem_append.2 ⟨stored.numbers, by simpa using number⟩

theorem stored_of_served {b : LoggedBackend TextBackend} (served : Served {} b)
    (numbers : ∀ p ∈ decoded b.calls, ∀ t, p.pts = some t → t.isNaN = false) :
    b.state.Stored (accepted (decoded b.calls)) := by
  induction served with
  | start => exact ⟨.nil, .nil, rfl, List.forall_mem_nil _, List.forall_mem_nil _⟩
  | @decode b p _ ih =>
      have log : decoded (b.decode p).calls = decoded b.calls ++ [p] := decoded_decode p b.calls
      rw [log] at numbers ⊢
      rw [accepted, List.foldl_concat]
      exact (ih fun q member => numbers q (List.mem_append_left _ member)).decode (numbers p (by simp))
  | @render b purpose g pts _ ih =>
      have same := sameEvents_render b.state g pts
      obtain ⟨frame, -, rendered⟩ | ⟨fault, -, rendered⟩ := b.render_cases purpose g pts
      · rw [rendered] at numbers ⊢
        exact (ih numbers).congr same.events same.nextId
      · rw [rendered] at numbers ⊢
        exact (ih numbers).congr same.events same.nextId
  | text pts _ ih => exact (ih numbers).congr rfl rfl
  | reset _ ih => exact (ih numbers).congr rfl rfl
  | select on _ ih => exact (ih numbers).congr rfl rfl
  | @control b c _ ih =>
      have became : (b.control c).2.state = { b.state with atTop := (b.state.control c).2.atTop } :=
        control_frame c b.state
      refine (ih numbers).congr ?_ ?_
      · rw [became]
      · rw [became]

end TextBackend
end Subtitles
