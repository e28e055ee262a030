/-
# Proofs.TextBackend.Drawing: what a render of text depends on

A render draws the events active at its time, and nothing else of the state but the alignment.
Numbers that are the same may stand for each other in the time and in the geometry
(`Draws.congr`). An event that starts later is not seen by the time before it, even where it
ends an event without a stop (`visibleAt_append`), so a time that all packets to come lie beyond
is drawn the same before and after them (`Draws.decodes`).
-/
import Subtitles.Proofs.Bisect
import Subtitles.Proofs.Ended
import Subtitles.Proofs.Geometry
import Subtitles.TextBackend
namespace Subtitles

set_option autoImplicit false

/-! ## The layout -/

namespace TextLayout

variable {g h : Geometry}

theorem lineHeight_congr (same : g.Same h) : lineHeight g = lineHeight h := by
  rw [lineHeight, lineHeight, same.areaHeight_eq]

theorem cellWidth_congr (same : g.Same h) : cellWidth g = cellWidth h := by
  rw [cellWidth, cellWidth, lineHeight_congr same]

theorem blockTop_congr (same : g.Same h) (atTop : Bool) (blockHeight : Nat) :
    blockTop g atTop blockHeight = blockTop h atTop blockHeight := by
  obtain ⟨-, -, ⟨-, top, -, bottom⟩, -⟩ := id same
  have topEdge : g.margins.top.atLeastZero.toInt64Value = h.margins.top.atLeastZero.toInt64Value :=
    top.alike.atLeastZero.clampTo_eq _ _
  have bottomEdge : g.margins.bottom.atLeastZero.toInt64Value = h.margins.bottom.atLeastZero.toInt64Value :=
    bottom.alike.atLeastZero.clampTo_eq _ _
  rw [blockTop, blockTop, lineHeight_congr same, topEdge, bottomEdge, same.2.1]

theorem linePart_congr (same : g.Same h) (color : Color) (top : Int) (row : Nat) (line : List Char) :
    linePart g color top row line = linePart h color top row line := by
  rw [linePart, linePart, lineCapacity, lineCapacity, lineHeight_congr same, cellWidth_congr same, same.1]

theorem partsFrom_congr (same : g.Same h) (color : Color) (top : Int) (row : Nat)
    (lines : List (List Char)) : partsFrom g color top row lines = partsFrom h color top row lines := by
  induction lines generalizing row with
  | nil => rfl
  | cons line rest ih => rw [partsFrom, partsFrom, linePart_congr same, ih]

theorem parts_congr (same : g.Same h) (atTop : Bool) (color : Color) (lines : List (List Char)) :
    parts g atTop color lines = parts h atTop color lines := by
  simp only [parts, lineHeight_congr same, blockTop_congr same, partsFrom_congr same]

/-! A layout can only fail by a length or a position that is too large. -/

/-- The only faults are overflows. -/
def OnlyOverflows {α : Type} (x : Except Fault α) : Prop :=
  ∀ fault, x = .error fault → ∃ op, fault = .overflow op

theorem OnlyOverflows.bind {α β : Type} {x : Except Fault α} {k : α → Except Fault β}
    (first : OnlyOverflows x) (rest : ∀ a, OnlyOverflows (k a)) : OnlyOverflows (x >>= k) := by
  cases x with
  | error fault =>
      rintro _ ⟨⟩
      exact first fault rfl
  | ok a => exact rest a

theorem onlyOverflows_ok {α : Type} (a : α) : OnlyOverflows (.ok a) := nofun

theorem onlyOverflows_mulLength (a b : Nat) : OnlyOverflows (mulLength a b) := by
  unfold mulLength
  split
  · exact onlyOverflows_ok _
  · rintro _ ⟨⟩
    exact ⟨_, rfl⟩

theorem onlyOverflows_position (op : Operation) (i : Int) : OnlyOverflows (position op i) := by
  unfold position
  split
  · exact onlyOverflows_ok _
  · rintro _ ⟨⟩
    exact ⟨_, rfl⟩

theorem onlyOverflows_linePart (g : Geometry) (color : Color) (top : Int) (row : Nat) (line : List Char) :
    OnlyOverflows (linePart g color top row line) := by
  refine (onlyOverflows_mulLength _ _).bind fun width => ?_
  split
  · exact onlyOverflows_ok _
  · exact (onlyOverflows_mulLength _ _).bind fun _ =>
      (onlyOverflows_position _ _).bind fun _ =>
        (onlyOverflows_position _ _).bind fun _ => onlyOverflows_ok _

theorem onlyOverflows_partsFrom (g : Geometry) (color : Color) (top : Int) (row : Nat)
    (lines : List (List Char)) : OnlyOverflows (partsFrom g color top row lines) := by
  induction lines generalizing row with
  | nil => exact onlyOverflows_ok _
  | cons line rest ih =>
      exact (onlyOverflows_linePart g color top row line).bind fun _ =>
        (ih (row + 1)).bind fun _ => onlyOverflows_ok _

theorem onlyOverflows_blockTop (g : Geometry) (atTop : Bool) (blockHeight : Nat) :
    OnlyOverflows (blockTop g atTop blockHeight) := by
  cases atTop with
  | true => exact onlyOverflows_position _ _
  | false =>
      exact (onlyOverflows_position _ _).bind fun _ =>
        (onlyOverflows_position _ _).bind fun _ => onlyOverflows_position _ _

theorem onlyOverflows_parts (g : Geometry) (atTop : Bool) (color : Color) (lines : List (List Char)) :
    OnlyOverflows (parts g atTop color lines) :=
  (onlyOverflows_mulLength _ _).bind fun _ =>
    (onlyOverflows_blockTop g atTop _).bind fun _ => onlyOverflows_partsFrom g color _ 0 lines

end TextLayout

/-! ## Events in order -/

namespace Event

variable {pts q : Binary64} {e : Event} {es : List Event}

theorem visibleAt_sublist (pts : Binary64) (es : List Event) : (visibleAt pts es).Sublist es := by
  induction es with
  | nil => exact .slnil
  | cons e later ih =>
      rw [visibleAt]
      split
      · exact ih.cons_cons e
      · exact ih.cons e

theorem visibleAt_congr (same : pts.Same q) (es : List Event) : visibleAt pts es = visibleAt q es := by
  induction es with
  | nil => rfl
  | cons e later ih => simp only [visibleAt, same.le_iff, same.lt_iff, ih]

theorem insert_perm (e : Event) (es : List Event) : (e.insert es).Perm (e :: es) :=
  List.perm_insertIdx e es (bisect_le _ es)

/-- An event goes between those that start no later and those that start after it. -/
theorem insert_append {fs : List Event} (before : ∀ f ∈ es, f.start ≤ e.start)
    (after : ∀ f ∈ fs, ¬ f.start ≤ e.start) : e.insert (es ++ fs) = es ++ e :: fs := by
  rw [insert, bisect_append (by simpa using before) (by simpa using after), insertIdx_length_append]

/-- An event that no other starts after is appended. -/
theorem insert_eq_append (last : ∀ f ∈ es, f.start ≤ e.start) : e.insert es = es ++ [e] := by
  have placed := insert_append last (List.forall_mem_nil _)
  rwa [List.append_nil] at placed

/-- An event that comes after a time is not seen by it. -/
theorem visibleAt_append (number : e.start.isNaN = false) (beyond : ¬ e.start ≤ pts) :
    visibleAt pts (es ++ [e]) = visibleAt pts es := by
  induction es with
  | nil => simp [visibleAt, beyond]
  | cons f later ih =>
      have ends : f.start ≤ pts → ((f.visibleUntil (later ++ [e])).all (fun stop => decide (pts < stop)) ↔
          (f.visibleUntil later).all fun stop => decide (pts < stop)) := by
        intro started
        cases stop : f.stop with
        | some stop => simp [visibleUntil, stop]
        | none =>
            cases found : later.find? fun k => decide (f.start < k.start) with
            | some k => simp [visibleUntil, stop, found, List.find?_append]
            | none =>
                have before : pts < e.start := Binary64.lt_of_not_le ⟨number, started.1.2⟩ beyond
                by_cases ended : f.start < e.start <;>
                  simp [visibleUntil, stop, found, List.find?_append, ended, before]
      rw [List.cons_append, visibleAt, visibleAt, ih]
      by_cases started : f.start ≤ pts
      · simp only [ends started]
      · simp [started]

end Event

namespace TextBackend

variable {b b' : TextBackend} {g g' : Geometry} {pts q : Binary64} {p : Packet} {ps qs : List Packet}
  {f f' : Frame}

/-! ## What a frame shows -/

/-- What a geometry shows of events. -/
def drawn (es : List Event) (g : Geometry) (atTop : Bool) : Except Fault (List Part) :=
  if g.isVoid then .ok [] else TextLayout.parts g atTop color (visibleLines es)

theorem drawn_congr (same : g.Same g') (es : List Event) (atTop : Bool) :
    drawn es g atTop = drawn es g' atTop := by
  rw [drawn, drawn, same.isVoid_eq, TextLayout.parts_congr same]

theorem onlyOverflows_drawn (es : List Event) (g : Geometry) (atTop : Bool) :
    TextLayout.OnlyOverflows (drawn es g atTop) := by
  unfold drawn
  split
  · exact TextLayout.onlyOverflows_ok _
  · exact TextLayout.onlyOverflows_parts g atTop color _

/-- The frame is made of these parts. -/
def MadeOf (f : Frame) (parts : List Part) : Prop :=
  f.format = (if parts.isEmpty then .empty else .alpha8) ∧ f.parts = parts

theorem MadeOf.sameContent {parts : List Part} (first : MadeOf f parts) (second : MadeOf f' parts) :
    f.SameContent f' :=
  ⟨first.1.trans second.1.symm, first.2.trans second.2.symm⟩

theorem MadeOf.of_sameContent {parts : List Part} (made : MadeOf f parts) (same : f.SameContent f') :
    MadeOf f' parts :=
  ⟨same.1.symm.trans made.1, same.2.symm.trans made.2⟩

/-- The frame shows what is active at a time. -/
def Draws (b : TextBackend) (g : Geometry) (pts : Binary64) (f : Frame) : Prop :=
  ∃ parts, drawn (b.active pts) g b.atTop = .ok parts ∧ MadeOf f parts

theorem Draws.sameContent (first : b.Draws g pts f) (second : b.Draws g pts f') : f.SameContent f' := by
  obtain ⟨parts, drawn, made⟩ := first
  obtain ⟨parts', drawn', made'⟩ := second
  rw [drawn] at drawn'
  obtain rfl := Except.ok.inj drawn'
  exact made.sameContent made'

/-- The same is drawn at the same time and geometry, of the same events. -/
theorem Draws.congr (draws : b.Draws g pts f) (geometry : g.Same g') (top : b.atTop = b'.atTop)
    (active : b.active pts = b'.active q) : b'.Draws g' q f := by
  obtain ⟨parts, drawn, made⟩ := draws
  refine ⟨parts, ?_, made⟩
  rw [← active, ← top, ← drawn_congr geometry, drawn]

theorem active_congr (same : pts.Same q) (b : TextBackend) : b.active pts = b.active q :=
  Event.visibleAt_congr same b.events

/-- A render that does not fault draws, and either way it notes its key and nothing else. -/
theorem render_cases (b : TextBackend) (g : Geometry) (pts : Binary64) :
    (∀ f, (b.render g pts).1 = .ok f → b.Draws g pts f) ∧
      (∀ fault, (b.render g pts).1 = .error fault → drawn (b.active pts) g b.atTop = .error fault) ∧
      ∃ changes, (b.render g pts).2 = { b with lastKey := some (b.key g pts), changes } := by
  have content : b.content g pts = drawn (b.active pts) g b.atTop := rfl
  refine ⟨fun f answer => ?_, fun fault answer => ?_, ?_⟩
  · obtain ⟨parts, result, rfl⟩ := of_map_eq_ok answer
    exact ⟨parts, result, rfl, rfl⟩
  · simp only [render, content] at answer
    cases result : drawn (b.active pts) g b.atTop with
    | ok parts =>
        rw [result] at answer
        exact absurd answer nofun
    | error fault' =>
        rw [result] at answer
        rw [Except.error.inj answer]
  · simp only [render, noteKey]
    split
    · exact ⟨b.changes, rfl⟩
    · exact ⟨b.changes + 1, rfl⟩

/-! ## Packets in order -/

/-- What can be read of a packet starts at its time. -/
theorem pts_of_readable? {start : Binary64} {text : String} (read : readable? p = some (start, text)) :
    p.pts = some start := by
  unfold readable? at read
  cases time : p.pts with
  | none => simp [time] at read
  | some t =>
      simp only [time, Option.bind_eq_bind, Option.bind_some, Option.bind_eq_some_iff] at read
      obtain ⟨content, -, pair⟩ := read
      rw [(Prod.mk.inj (Option.some.inj pair)).1]

/-- A packet leaves the state as it is, or adds an event at its time. -/
theorem decode_cases (p : Packet) (b : TextBackend) :
    b.decode p = b ∨ ∃ e : Event, p.pts = some e.start ∧ e.id = b.nextId ∧
      b.decode p = { b with events := e.insert b.events, nextId := b.nextId + 1 } := by
  unfold decode
  split
  · exact .inl rfl
  · next start text read =>
      split
      · exact .inl rfl
      · exact .inr ⟨_, pts_of_readable? read, rfl, rfl⟩

/-- The packets come to the same in both states. -/
structure SameEvents (b b' : TextBackend) : Prop where
  events : b.events = b'.events
  nextId : b.nextId = b'.nextId
  atTop : b.atTop = b'.atTop

theorem SameEvents.refl (b : TextBackend) : b.SameEvents b := ⟨rfl, rfl, rfl⟩

theorem SameEvents.symm (same : b.SameEvents b') : b'.SameEvents b :=
  ⟨same.events.symm, same.nextId.symm, same.atTop.symm⟩

theorem SameEvents.trans {b'' : TextBackend} (first : b.SameEvents b') (second : b'.SameEvents b'') :
    b.SameEvents b'' :=
  ⟨first.events.trans second.events, first.nextId.trans second.nextId, first.atTop.trans second.atTop⟩

theorem SameEvents.active (same : b.SameEvents b') (pts : Binary64) : b.active pts = b'.active pts :=
  congrArg (Event.visibleAt pts) same.events

theorem Draws.of_sameEvents (draws : b.Draws g pts f) (same : b.SameEvents b') : b'.Draws g pts f := by
  obtain ⟨parts, drawn, made⟩ := draws
  exact ⟨parts, by rw [← same.active, ← same.atTop, drawn], made⟩

theorem SameEvents.decode (same : b.SameEvents b') (p : Packet) : (b.decode p).SameEvents (b'.decode p) := by
  unfold TextBackend.decode
  split
  · exact same
  · rw [same.events, same.nextId]
    split
    · exact same
    · exact ⟨rfl, rfl, same.atTop⟩

theorem sameEvents_render (b : TextBackend) (g : Geometry) (pts : Binary64) :
    (b.render g pts).2.SameEvents b := by
  obtain ⟨-, -, changes, state⟩ := render_cases b g pts
  rw [state]
  exact ⟨rfl, rfl, rfl⟩

/-- The packets come in the order of their timestamps, and none before what is decoded. -/
structure Awaits (b : TextBackend) (ps : List Packet) : Prop where
  numbers : ∀ p ∈ ps, ∀ t, p.pts = some t → t.isNaN = false
  sorted : ps.Pairwise fun p q => ∀ s t, p.pts = some s → q.pts = some t → s ≤ t
  after : ∀ p ∈ ps, ∀ t, p.pts = some t → ∀ e ∈ b.events, e.start ≤ t

theorem Awaits.decode (awaits : b.Awaits (p :: ps)) : (b.decode p).Awaits ps := by
  obtain ⟨numbers, sorted, after⟩ := awaits
  refine ⟨fun q member => numbers q (List.mem_cons_of_mem _ member), sorted.of_cons,
    fun q member t time e old => ?_⟩
  obtain same | ⟨e', start, -, became⟩ := decode_cases p b
  · rw [same] at old
    exact after q (List.mem_cons_of_mem _ member) t time e old
  · rw [became] at old
    rcases List.mem_cons.1 ((Event.insert_perm e' b.events).mem_iff.1 old) with rfl | old
    · exact List.rel_of_pairwise_cons sorted member _ _ start time
    · exact after q (List.mem_cons_of_mem _ member) t time e old

/-- What comes after a time leaves what is active at it as it is. -/
theorem Awaits.active_decode (awaits : b.Awaits (p :: ps)) (beyond : ∀ t, p.pts = some t → ¬ t ≤ pts) :
    (b.decode p).active pts = b.active pts := by
  obtain same | ⟨e, time, -, became⟩ := decode_cases p b
  · rw [same]
  · rw [became, active, active, Event.insert_eq_append (awaits.after p List.mem_cons_self _ time)]
    exact Event.visibleAt_append (awaits.numbers p List.mem_cons_self _ time) (beyond _ time)

theorem atTop_decode (p : Packet) (b : TextBackend) : (b.decode p).atTop = b.atTop := by
  obtain same | ⟨e, -, -, became⟩ := decode_cases p b
  · rw [same]
  · rw [became]

/-- Decode packets in order. -/
def decodes (ps : List Packet) (b : TextBackend) : TextBackend := ps.foldl (fun b p => b.decode p) b

theorem decodes_append (ps qs : List Packet) (b : TextBackend) :
    b.decodes (ps ++ qs) = (b.decodes ps).decodes qs :=
  List.foldl_append

theorem SameEvents.decodes (same : b.SameEvents b') (ps : List Packet) :
    (b.decodes ps).SameEvents (b'.decodes ps) := by
  induction ps generalizing b b' with
  | nil => exact same
  | cons p ps ih => exact ih (same.decode p)

theorem Awaits.congr (awaits : b.Awaits ps) (same : b.SameEvents b') : b'.Awaits ps :=
  ⟨awaits.numbers, awaits.sorted, same.events ▸ awaits.after⟩

theorem Awaits.decodes (awaits : b.Awaits (ps ++ qs)) : (b.decodes ps).Awaits qs := by
  induction ps generalizing b with
  | nil => exact awaits
  | cons p ps ih => exact ih awaits.decode

/-- A frame drawn for a time that all of the packets lie beyond is still right after them. -/
theorem Draws.decodes (draws : b.Draws g pts f) (awaits : b.Awaits (ps ++ qs))
    (beyond : ∀ p ∈ ps, ∀ t, p.pts = some t → ¬ t ≤ pts) : (b.decodes ps).Draws g pts f := by
  induction ps generalizing b with
  | nil => exact draws
  | cons p ps ih =>
      have still : (b.decode p).Draws g pts f := by
        obtain ⟨parts, drawn, made⟩ := draws
        refine ⟨parts, ?_, made⟩
        rw [awaits.active_decode (beyond p List.mem_cons_self), atTop_decode, drawn]
      exact ih still awaits.decode fun q member => beyond q (List.mem_cons_of_mem _ member)

end TextBackend
end Subtitles
