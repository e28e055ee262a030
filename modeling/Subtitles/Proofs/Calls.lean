/-
# Proofs.Calls: what the log of a backend tells

`Served` are the backends that calls lead to from a fresh one, and `decoded` are the packets one
was given. `SoundChanges` is the rule for change numbers: wherever such a backend gives a frame the
number 0, the frame shows what the frame of the render call before it showed. `FirstChanges` and
`DistinctChanges` are rules for the other numbers, and `Returns` is the rule that renders do not
fault.
-/
import Subtitles.Backend.Logged
namespace Subtitles

set_option autoImplicit false

theorem Frame.SameContent.trans {f g k : Frame} (first : f.SameContent g) (second : g.SameContent k) :
    f.SameContent k :=
  ⟨first.1.trans second.1, first.2.trans second.2⟩

/-- The frame of a call to render. -/
def Call.frame? : Call → Option Frame
  | .render _ _ _ frame => some frame
  | _ => none

/-- The frame of the latest call to render. -/
def lastFrame? (calls : List Call) : Option Frame := calls.findSome? Call.frame?

/-- The frames of all calls to render, the latest first. -/
def frames (calls : List Call) : List Frame := calls.filterMap Call.frame?

/-- The packet of a call to decode. -/
def Call.packet? : Call → Option Packet
  | .decode p => some p
  | _ => none

/-- The packets decoded, in order. -/
def decoded (calls : List Call) : List Packet := (calls.filterMap Call.packet?).reverse

theorem decoded_append (newer older : List Call) : decoded (newer ++ older) = decoded older ++ decoded newer := by
  rw [decoded, List.filterMap_append, List.reverse_append]
  rfl

theorem decoded_decode (p : Packet) (calls : List Call) :
    decoded (.decode p :: calls) = decoded calls ++ [p] :=
  decoded_append [.decode p] calls

theorem decoded_eq_nil_iff {calls : List Call} : decoded calls = [] ↔ ∀ c ∈ calls, c.packet? = none := by
  rw [decoded, List.reverse_eq_nil_iff, List.filterMap_eq_nil_iff]

theorem decoded_decodes (ps : List Packet) (calls : List Call) :
    decoded ((ps.map Call.decode).reverse ++ calls) = decoded calls ++ ps := by
  have logged : (ps.map Call.decode).filterMap Call.packet? = ps := by
    rw [List.filterMap_map]
    exact List.filterMap_some
  rw [decoded_append, decoded, decoded, List.filterMap_reverse, List.reverse_reverse, logged]

/-- The time of a call to render. -/
def Call.time? : Call → Option Binary64
  | .render _ pts _ _ => some pts
  | _ => none

/-- The times rendered, in order. -/
def renderTimes (calls : List Call) : List Binary64 := (calls.filterMap Call.time?).reverse

theorem renderTimes_render (purpose : Purpose) (pts : Binary64) (g : Geometry) (frame : Frame) (calls : List Call) :
    renderTimes (.render purpose pts g frame :: calls) = renderTimes calls ++ [pts] :=
  List.reverse_cons

/-- After the calls in `since` the worker had `pts` rendered at `g`, and got the frame. -/
def RenderedAhead (since calls : List Call) (pts : Binary64) (g : Geometry) (frame : Frame) : Prop :=
  ∃ newer older, calls = newer ++ .render .ahead pts g frame :: older ∧ since <:+ older

theorem RenderedAhead.cons {since calls : List Call} {pts : Binary64} {g : Geometry} {frame : Frame}
    (ahead : RenderedAhead since calls pts g frame) (c : Call) :
    RenderedAhead since (c :: calls) pts g frame := by
  obtain ⟨newer, older, rfl, after⟩ := ahead
  exact ⟨c :: newer, older, rfl, after⟩

/-! ## Renders on demand -/

def Call.isDemand : Call → Bool
  | .render .demand .. => true
  | _ => false

def Call.isAhead : Call → Bool
  | .render .ahead .. => true
  | _ => false

def Call.isAheadFor (pts : Binary64) : Call → Bool
  | .render .ahead p _ _ => decide (p.Same pts)
  | _ => false

def demands (calls : List Call) : Nat := calls.countP Call.isDemand

/-- The renders on demand before the worker had `pts` rendered the last time. -/
def demandsBefore (pts : Binary64) (calls : List Call) : Nat :=
  demands (calls.dropWhile fun c => !c.isAheadFor pts)

theorem demands_append (new calls : List Call) : demands (new ++ calls) = demands new + demands calls :=
  List.countP_append

theorem demands_eq_zero {calls : List Call} (silent : ∀ c ∈ calls, c.frame? = none) : demands calls = 0 := by
  refine List.countP_eq_zero.2 fun c member => ?_
  have drewNothing := silent c member
  cases c with
  | render purpose pts g frame => exact absurd drewNothing nofun
  | _ => nofun

theorem demandsBefore_le (pts : Binary64) (calls : List Call) : demandsBefore pts calls ≤ demands calls :=
  (List.dropWhile_sublist _).countP_le

/-- Other calls are passed over. -/
theorem demandsBefore_append {pts : Binary64} {new : List Call} (other : ∀ c ∈ new, c.isAheadFor pts = false)
    (calls : List Call) : demandsBefore pts (new ++ calls) = demandsBefore pts calls := by
  rw [demandsBefore, List.dropWhile_append_of_pos]
  · rfl
  · intro c member
    rw [other c member]
    rfl

theorem demandsBefore_ahead {p pts : Binary64} (same : p.Same pts) (g : Geometry) (frame : Frame)
    (calls : List Call) : demandsBefore pts (.render .ahead p g frame :: calls) = demands calls := by
  have found : Call.isAheadFor pts (.render .ahead p g frame) = true := decide_eq_true same
  rw [demandsBefore, List.dropWhile_cons_of_neg (by simp [found])]
  exact List.countP_cons_of_neg nofun

theorem Call.isAheadFor_of_isAhead {c : Call} (other : c.isAhead = false) (pts : Binary64) :
    c.isAheadFor pts = false := by
  cases c with
  | render purpose p g frame =>
      cases purpose with
      | ahead => exact absurd other nofun
      | demand => rfl
  | _ => rfl

theorem Call.isAhead_of_frame? {c : Call} (silent : c.frame? = none) : c.isAhead = false := by
  cases c with
  | render purpose p g frame => exact absurd silent nofun
  | _ => rfl

theorem Call.packet?_of_isAhead {c : Call} (ahead : c.isAhead = true) : c.packet? = none := by
  cases c with
  | decode p => cases ahead
  | _ => rfl

namespace LoggedBackend

variable {σ : Type} [Backend σ]

/-- Calls lead from a fresh backend to this one. -/
inductive Served (fresh : σ) : LoggedBackend σ → Prop
  | start : Served fresh { state := fresh }
  | decode {b : LoggedBackend σ} (p : Packet) : Served fresh b → Served fresh (b.decode p)
  | render {b : LoggedBackend σ} (purpose : Purpose) (g : Geometry) (pts : Binary64) :
      Served fresh b → Served fresh (b.render purpose g pts).2
  | text {b : LoggedBackend σ} (pts : Binary64) : Served fresh b → Served fresh (b.text pts).2
  | reset {b : LoggedBackend σ} : Served fresh b → Served fresh b.reset
  | select {b : LoggedBackend σ} (on : Bool) : Served fresh b → Served fresh (b.select on)
  | control {b : LoggedBackend σ} (c : Command) : Served fresh b → Served fresh (b.control c).2

theorem Served.decodes {fresh : σ} {b : LoggedBackend σ} (served : Served fresh b) (ps : List Packet) :
    Served fresh (ps.foldl (fun b p => b.decode p) b) := by
  induction ps generalizing b with
  | nil => exact served
  | cons p ps ih => exact ih (.decode p served)

/-- Every render gives a frame. -/
def Returns (fresh : σ) : Prop :=
  ∀ b, Served fresh b → ∀ g pts, ∃ frame, (Backend.render g pts b.state).1 = .ok frame

/-- A frame with the change number 0 shows what the frame before it showed. -/
def SoundChanges (fresh : σ) : Prop :=
  ∀ b, Served fresh b → ∀ purpose g pts frame, (b.render purpose g pts).1 = .ok frame →
    frame.isUnchanged = true → ∀ before, lastFrame? b.calls = some before → frame.SameContent before

/-- A frame has a number other than 0 where no render came before it that it could repeat. -/
def FirstChanges (fresh : σ) : Prop :=
  ∀ b, Served fresh b → b.latest = none → ∀ purpose g pts frame,
    (b.render purpose g pts).1 = .ok frame → frame.changeId ≠ 0

/-- A number other than 0 is given to one frame only. -/
def DistinctChanges (fresh : σ) : Prop :=
  ∀ b, Served fresh b → ∀ f ∈ frames b.calls, ∀ f' ∈ frames b.calls,
    f.changeId = f'.changeId → f.changeId ≠ 0 → f = f'

/-- A render is logged and remembered with its frame, or faults and is neither. -/
theorem render_cases (purpose : Purpose) (g : Geometry) (pts : Binary64) (b : LoggedBackend σ) :
    (∃ frame, Backend.render g pts b.state = (.ok frame, (Backend.render g pts b.state).2) ∧
      b.render purpose g pts = (.ok frame,
        ⟨(Backend.render g pts b.state).2, some ⟨pts, g⟩, .render purpose pts g frame :: b.calls⟩)) ∨
    ∃ f, Backend.render g pts b.state = (.error f, (Backend.render g pts b.state).2) ∧
      b.render purpose g pts = (.error f, { b with state := (Backend.render g pts b.state).2 }) := by
  unfold render
  cases rendered : Backend.render g pts b.state with
  | mk answer state =>
      cases answer with
      | ok frame => exact .inl ⟨frame, rfl, rfl⟩
      | error f => exact .inr ⟨f, rfl, rfl⟩

/-- It adds itself to the log at most. -/
theorem calls_render (purpose : Purpose) (g : Geometry) (pts : Binary64) (b : LoggedBackend σ) :
    ∃ new, (b.render purpose g pts).2.calls = new ++ b.calls ∧
      ∀ c ∈ new, ∃ frame, c = .render purpose pts g frame := by
  obtain ⟨frame, -, rendered⟩ | ⟨f, -, faulted⟩ := b.render_cases purpose g pts
  · exact ⟨[.render purpose pts g frame], by rw [rendered]; rfl, List.forall_mem_singleton.2 ⟨frame, rfl⟩⟩
  · exact ⟨[], by rw [faulted]; rfl, List.forall_mem_nil _⟩

theorem answer_render (purpose : Purpose) (g : Geometry) (pts : Binary64) (b : LoggedBackend σ) :
    (b.render purpose g pts).1 = (Backend.render g pts b.state).1 := by
  obtain ⟨frame, answer, rendered⟩ | ⟨f, answer, rendered⟩ := b.render_cases purpose g pts
  · rw [rendered, answer]
  · rw [rendered, answer]

theorem state_render (purpose : Purpose) (g : Geometry) (pts : Binary64) (b : LoggedBackend σ) :
    (b.render purpose g pts).2.state = (Backend.render g pts b.state).2 := by
  obtain ⟨frame, answer, rendered⟩ | ⟨f, answer, faulted⟩ := b.render_cases purpose g pts
  · rw [rendered, answer]
  · rw [faulted, answer]

theorem render_of_ok {purpose : Purpose} {g : Geometry} {pts : Binary64} {frame : Frame}
    {b : LoggedBackend σ} {after : LoggedBackend σ} (answer : b.render purpose g pts = (.ok frame, after)) :
    (b.render purpose g pts).2 =
      ⟨(Backend.render g pts b.state).2, some ⟨pts, g⟩, .render purpose pts g frame :: b.calls⟩ := by
  obtain ⟨frame', -, rendered⟩ | ⟨f, -, faulted⟩ := b.render_cases purpose g pts
  · rw [rendered] at answer ⊢
    rw [Except.ok.inj (congrArg Prod.fst answer)]
  · rw [faulted] at answer
    exact absurd (congrArg Prod.fst answer) nofun

theorem render_of_error {purpose : Purpose} {g : Geometry} {pts : Binary64} {f : Fault}
    {b : LoggedBackend σ} {after : LoggedBackend σ} (answer : b.render purpose g pts = (.error f, after)) :
    (b.render purpose g pts).2 = { b with state := (Backend.render g pts b.state).2 } := by
  obtain ⟨frame, -, rendered⟩ | ⟨f', -, faulted⟩ := b.render_cases purpose g pts
  · rw [rendered] at answer
    exact absurd (congrArg Prod.fst answer) nofun
  · rw [faulted]

/-- No call but the last one closes the backend. -/
theorem Served.not_closed {fresh : σ} {b : LoggedBackend σ} (served : Served fresh b) : .close ∉ b.calls := by
  induction served with
  | start => exact List.not_mem_nil
  | @render b purpose g pts _ ih =>
      obtain ⟨frame, -, rendered⟩ | ⟨f, -, faulted⟩ := b.render_cases purpose g pts
      · rw [rendered]
        exact List.not_mem_cons_of_ne_of_not_mem nofun ih
      · rw [faulted]
        exact ih
  | decode p _ ih => exact List.not_mem_cons_of_ne_of_not_mem nofun ih
  | text pts _ ih => exact List.not_mem_cons_of_ne_of_not_mem nofun ih
  | reset _ ih => exact List.not_mem_cons_of_ne_of_not_mem nofun ih
  | select on _ ih => exact List.not_mem_cons_of_ne_of_not_mem nofun ih
  | control c _ ih => exact List.not_mem_cons_of_ne_of_not_mem nofun ih

theorem foldl_decode (ps : List Packet) (b : LoggedBackend σ) :
    ps.foldl (fun b p => b.decode p) b =
      { b with
        state := ps.foldl (fun state p => Backend.decode p state) b.state
        calls := (ps.map Call.decode).reverse ++ b.calls } := by
  induction ps generalizing b with
  | nil => rfl
  | cons p ps ih =>
      rw [List.foldl_cons, ih, List.map_cons, List.reverse_cons, List.append_assoc]
      rfl

end LoggedBackend
end Subtitles
