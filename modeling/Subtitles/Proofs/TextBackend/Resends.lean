/-
# Proofs.TextBackend.Resends: what a store knows of the packets that were sent

A packet that can be read comes to an event once. From then on the store has an event with its start and
its text, for events are never dropped (`Knows`, kept by `Knows.accept`), so whenever the packet is sent
again it is a repetition and changes nothing. The same test, made before each event is taken in, keeps any
two events from having both the same start and the same text (`distinct_accepted`); their numbers are their
places in the order of arrival (`ids_accepted`).
-/
import Subtitles.Proofs.TextBackend.Visible
namespace Subtitles

set_option autoImplicit false

namespace Event

variable {e f : Event} {es : List Event} {start : Binary64} {text : String}

/-- Events with the same start and the same text. -/
def Repeats (e f : Event) : Prop := e.start.Same f.start ∧ e.text = f.text

theorem Repeats.symm (repeats : e.Repeats f) : f.Repeats e := ⟨repeats.1.symm, repeats.2.symm⟩

theorem isRepeated_iff : isRepeated start text es = true ↔ ∃ f ∈ es, f.start.Same start ∧ f.text = text := by
  simp [isRepeated]

end Event

namespace TextBackend

open LoggedBackend (Served)

variable {b : TextBackend} {es : List Event} {p q : Packet} {ps : List Packet}

/-! ## One packet -/

/-- A packet that comes to no event is not readable or repeats one; another is added at the end. -/
theorem accept_cases (es : List Event) (p : Packet) :
    (accept es p = es ∧
      ∀ start text, readable? p = some (start, text) → Event.isRepeated start text es = true) ∨
    ∃ e : Event, readable? p = some (e.start, e.text) ∧ Event.isRepeated e.start e.text es = false ∧
      e.id = es.length ∧ accept es p = es ++ [e] := by
  unfold accept
  cases read : readable? p with
  | none => exact .inl ⟨rfl, nofun⟩
  | some content =>
      obtain ⟨start, text⟩ := content
      dsimp only
      by_cases repeated : Event.isRepeated start text es = true
      · rw [if_pos repeated]
        refine .inl ⟨rfl, fun start' text' same => ?_⟩
        obtain ⟨rfl, rfl⟩ := Prod.mk.inj (Option.some.inj same)
        exact repeated
      · rw [if_neg repeated]
        exact .inr ⟨_, rfl, Bool.eq_false_iff.2 repeated, rfl, rfl⟩

/-- To these events the packet brings nothing new. -/
def Knows (es : List Event) (p : Packet) : Prop :=
  ∀ start text, readable? p = some (start, text) → Event.isRepeated start text es = true

/-- What the store knows it does not forget. -/
theorem Knows.accept (knows : Knows es p) (q : Packet) : Knows (accept es q) p := by
  intro start text read
  obtain ⟨f, member, same⟩ := Event.isRepeated_iff.1 (knows start text read)
  obtain ⟨unchanged, -⟩ | ⟨e, -, -, -, added⟩ := accept_cases es q
  · rw [unchanged]
    exact Event.isRepeated_iff.2 ⟨f, member, same⟩
  · rw [added]
    exact Event.isRepeated_iff.2 ⟨f, List.mem_append_left _ member, same⟩

/-- A packet just taken in is known. Its start has to be a number, or it would not be the same as itself. -/
theorem knows_accept (es : List Event) (number : ∀ t, p.pts = some t → t.isNaN = false) :
    Knows (accept es p) p := by
  intro start text read
  obtain ⟨unchanged, repeated⟩ | ⟨e, readE, -, -, added⟩ := accept_cases es p
  · rw [unchanged]
    exact repeated start text read
  · rw [added]
    rw [readE] at read
    obtain ⟨rfl, rfl⟩ := Prod.mk.inj (Option.some.inj read)
    have itself : e.start.Same e.start := Binary64.same_self_iff.2 (number _ (pts_of_readable? readE))
    exact Event.isRepeated_iff.2 ⟨e, by simp, itself, rfl⟩

/-- The store is left as it is by a packet it knows. -/
theorem Knows.decode_eq (knows : Knows b.events p) : b.decode p = b := by
  unfold decode
  split
  · rfl
  · next start text read => exact if_pos (knows start text read)

/-! ## All packets -/

/-- What holds of no events and is kept by each packet holds of all that is accepted. -/
theorem foldl_accept {P : List Event → Prop} (step : ∀ es p, P es → P (accept es p)) (begin : P es) :
    P (ps.foldl accept es) := by
  induction ps generalizing es with
  | nil => exact begin
  | cons p ps ih => exact ih (step es p begin)

theorem knows_accepted (numbers : ∀ p ∈ ps, ∀ t, p.pts = some t → t.isNaN = false) (es : List Event) :
    ∀ p ∈ ps, Knows (ps.foldl accept es) p := by
  induction ps generalizing es with
  | nil => exact List.forall_mem_nil _
  | cons p ps ih =>
      obtain ⟨first, others⟩ := List.forall_mem_cons.1 numbers
      refine List.forall_mem_cons.2 ⟨?_, ih others (accept es p)⟩
      rw [List.foldl_cons]
      exact foldl_accept (P := fun es => Knows es p) (fun es q knows => knows.accept q) (knows_accept es first)

/-- The number of an event is its place in the order of arrival. -/
theorem ids_accepted (ps : List Packet) : (accepted ps).map (·.id) = List.range (accepted ps).length := by
  refine foldl_accept (P := fun es => es.map (·.id) = List.range es.length) (fun es p ids => ?_) rfl
  obtain ⟨unchanged, -⟩ | ⟨e, -, -, id, added⟩ := accept_cases es p
  · rw [unchanged, ids]
  · rw [added, List.map_append, ids, List.length_append, List.length_singleton, List.range_succ, List.map_singleton, id]

theorem distinct_accepted (ps : List Packet) : (accepted ps).Pairwise fun e f => ¬ e.Repeats f := by
  refine foldl_accept (P := fun es => es.Pairwise fun e f => ¬ e.Repeats f) (fun es p distinct => ?_) .nil
  obtain ⟨unchanged, -⟩ | ⟨e, -, unlike, -, added⟩ := accept_cases es p
  · rwa [unchanged]
  · rw [added]
    refine List.pairwise_append.2 ⟨distinct, List.pairwise_singleton _ _, fun f member k last repeats => ?_⟩
    rw [List.mem_singleton.1 last] at repeats
    rw [Event.isRepeated_iff.2 ⟨f, member, repeats⟩] at unlike
    exact Bool.noConfusion unlike

/-- Whatever a backend was asked to do, it keeps one event for each packet that was accepted: by their starts, equal
starts by arrival, with distinct numbers, and no two with the same start and the same text. To send a packet
again that it was given at any time before changes nothing. -/
theorem store_ordered_resends_ignored {b : LoggedBackend TextBackend} (served : Served {} b)
    (numbers : ∀ p ∈ decoded b.calls, ∀ t, p.pts = some t → t.isNaN = false) :
    (accepted (decoded b.calls)).map (·.id) = List.range (accepted (decoded b.calls)).length ∧
    b.state.events.Perm (accepted (decoded b.calls)) ∧
    b.state.events.Pairwise Event.Earlier ∧
    (b.state.events.map (·.id)).Nodup ∧
    (b.state.events.Pairwise fun e f => ¬ (e.start.Same f.start ∧ e.text = f.text)) ∧
    ∀ p ∈ decoded b.calls, Backend.decode p b.state = b.state := by
  have stored := stored_of_served served numbers
  refine ⟨ids_accepted _, stored.perm, stored.sorted, ?_, ?_, fun p sent => ?_⟩
  · rw [(stored.perm.map _).nodup_iff, ids_accepted]
    exact List.nodup_range
  · exact (stored.perm.pairwise_iff fun unlike repeats => unlike (Event.Repeats.symm repeats)).2
      (distinct_accepted _)
  · refine Knows.decode_eq fun start text read => ?_
    rw [Event.isRepeated_perm stored.perm]
    exact knows_accepted numbers [] p sent start text read

/-- Of the packets that arrive in no order, the one with a carriage return at its end is known by its text without. -/
theorem store_ordered_resends_ignored_latecomers :
    latecomersDecoded.state.events.map (·.id) = [1, 2, 0] ∧
      latecomersDecoded.state.events.Pairwise Event.Earlier ∧
      Backend.decode (.ofText (some .one) (some (.ofNat 4)) "throughout\r\n") latecomersDecoded.state =
        latecomersDecoded.state := by
  have served : Served {} latecomersDecoded := Served.start.decodes latecomers
  have log : decoded latecomersDecoded.calls = latecomers := by decide +kernel
  have numbers : ∀ p ∈ decoded latecomersDecoded.calls, ∀ t, p.pts = some t → t.isNaN = false := by
    rw [log]
    decide +kernel
  obtain ⟨-, -, sorted, -, -, resent⟩ := store_ordered_resends_ignored served numbers
  refine ⟨by decide +kernel, sorted, resent _ ?_⟩
  rw [log]
  decide +kernel

end TextBackend
end Subtitles
