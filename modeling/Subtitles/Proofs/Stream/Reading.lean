/-
# Proofs.Stream.Reading: what a read takes from the source

A read for a time depends on the arrivals alone (`reading`), as long as the backend does not push
back. Where the packets go then is told by `foldl_deliver`: to the worker, or straight to the
backend. So two streams with one source take the same packets from it (`readUntil_eq`).
-/
import Subtitles.Stream
namespace Subtitles

set_option autoImplicit false

/-- The answer of a read, the packets it takes and the arrivals it leaves. -/
structure Reading where
  ready : Bool
  taken : List Packet
  left : List Arrival

/-- Read packets up to the first beyond `pts`. -/
def reading (pts : Binary64) (isOpen : Bool) : List Arrival → Reading
  | [] => ⟨!isOpen, [], []⟩
  | .packet p :: rest =>
    if p.pts.any fun t => decide (pts < t) then ⟨true, [p], rest⟩
    else { reading pts isOpen rest with taken := p :: (reading pts isOpen rest).taken }
  | .stall :: rest => ⟨false, [], rest⟩
  | .failure :: rest | .ending :: rest => ⟨true, [], rest⟩

/-- Of a row of packets a read takes the first ones. Where it leaves any, the last it took is
beyond `pts`. -/
theorem reading_packets (pts : Binary64) (ps : List Packet) :
    ∃ taken rest, reading pts false (ps.map .packet) = ⟨true, taken, rest.map .packet⟩ ∧ ps = taken ++ rest ∧
      (rest = [] ∨ ∃ p t, taken.getLast? = some p ∧ p.pts = some t ∧ pts < t) := by
  induction ps with
  | nil => exact ⟨[], [], rfl, rfl, .inl rfl⟩
  | cons p ps ih =>
      rw [List.map_cons, reading]
      split
      · next beyond =>
          obtain ⟨t, time, later⟩ := (Option.any_eq_true ..).1 beyond
          exact ⟨[p], ps, rfl, rfl, .inr ⟨p, t, rfl, time, of_decide_eq_true later⟩⟩
      · obtain ⟨taken, rest, read, parts, last⟩ := ih
        refine ⟨p :: taken, rest, by rw [read], by rw [parts, List.cons_append], last.imp_right ?_⟩
        rintro ⟨q, t, at_end, time, later⟩
        exact ⟨q, t, by rw [List.getLast?_cons, at_end]; rfl, time, later⟩

/-- What a read does not take stays, in order. -/
theorem packetsOf_reading (pts : Binary64) (isOpen : Bool) (arrivals : List Arrival) :
    Source.packetsOf arrivals =
      (reading pts isOpen arrivals).taken ++ Source.packetsOf (reading pts isOpen arrivals).left := by
  induction arrivals with
  | nil => rfl
  | cons a rest ih =>
      cases a with
      | packet p =>
          rw [reading]
          split
          · rfl
          · exact congrArg (p :: ·) ih
      | _ => rfl

/-- What comes before the next end, and what comes behind it, is all. -/
theorem Source.packets_eq_append (source : Source) : source.packets = source.untilEnd ++ source.pastEnd.packets := by
  unfold packets untilEnd pastEnd
  induction source.arrivals with
  | nil => rfl
  | cons a rest ih =>
      cases a with
      | ending => rfl
      | packet p => exact congrArg (p :: ·) ih
      | stall => exact ih
      | failure => exact ih

namespace Stream

variable {σ : Type} [Backend σ] {s : Stream σ}

/-- Packets go to the worker, or straight to the backend. -/
def enter (ps : List Packet) (s : Stream σ) : Stream σ :=
  if s.threaded then { s with pending := s.pending ++ ps }
  else { s with backend := ps.foldl (fun b p => b.decode p) s.backend }

theorem enter_cons (p : Packet) (ps : List Packet) (s : Stream σ) :
    s.enter (p :: ps) = (s.deliver p).enter ps := by
  cases threaded : s.threaded with
  | true =>
      have still : Stream.threaded { s with pending := s.pending ++ [p] } = true := threaded
      simp [enter, deliver, threaded, still]
  | false =>
      have still : Stream.threaded { s with backend := s.backend.decode p } = false := threaded
      simp [enter, deliver, threaded, still]

theorem enter_nil (s : Stream σ) : s.enter [] = s := by
  simp [enter]

theorem foldl_deliver (ps : List Packet) (s : Stream σ) : ps.foldl (fun s p => s.deliver p) s = s.enter ps := by
  induction ps generalizing s with
  | nil => exact s.enter_nil.symm
  | cons p ps ih => rw [List.foldl_cons, ih, enter_cons]

theorem deliver_frame (p : Packet) (s : Stream σ) :
    (s.deliver p).drained = s.drained ∧ (s.deliver p).lastRead = s.lastRead ∧
      (s.deliver p).pushesBack = s.pushesBack := by
  unfold deliver
  split <;> exact ⟨rfl, rfl, rfl⟩

/-- Take in what was read. -/
def takeIn (r : Reading) (s : Stream σ) : Stream σ :=
  enter r.taken
    { s with
      source := { s.source with arrivals := r.left }
      lastRead := (r.taken.getLast?.map (·.pts)).getD s.lastRead }

theorem takeIn_of_threaded (threaded : s.threaded = true) (r : Reading) :
    s.takeIn r =
      { s with
        source := { s.source with arrivals := r.left }
        lastRead := (r.taken.getLast?.map (·.pts)).getD s.lastRead
        pending := s.pending ++ r.taken } :=
  if_pos threaded

theorem takeIn_of_not_threaded (alone : s.threaded = false) (r : Reading) :
    s.takeIn r =
      { s with
        source := { s.source with arrivals := r.left }
        lastRead := (r.taken.getLast?.map (·.pts)).getD s.lastRead
        backend := r.taken.foldl (fun b p => b.decode p) s.backend } :=
  if_neg fun threaded => Bool.noConfusion (alone.symm.trans threaded)

theorem takeIn_cons (p : Packet) (r : Reading) (rest : List Arrival) (s : Stream σ) :
    s.takeIn { r with taken := p :: r.taken } =
      (deliver p { s with source := { s.source with arrivals := rest }, lastRead := p.pts }).takeIn r := by
  unfold takeIn
  rw [enter_cons, List.getLast?_cons]
  unfold deliver
  cases r.taken.getLast? <;> split <;> simp_all [threaded]

theorem takeIn_nothing (ready : Bool) (left : List Arrival) (s : Stream σ) :
    s.takeIn ⟨ready, [], left⟩ = { s with source := { s.source with arrivals := left } } := by
  simp [takeIn, enter]

theorem readUntil_poll {pts : Binary64} (goesOn : (s.drained || s.sawBeyond pts || s.isFull) = false) :
    s.readUntil pts =
      match s.source.poll with
      | (.packet p, source) =>
        if p.pts.any fun t => decide (pts < t) then (true, deliver p { s with source, lastRead := p.pts })
        else (deliver p { s with source, lastRead := p.pts }).readUntil pts
      | (.wait, source) => (false, { s with source })
      | (.failed, source) | (.ended, source) => (true, { s with source }) := by
  rw [readUntil, if_neg (by simp [goesOn])]
  split <;> simp_all

/-- A read takes what there is to take, where it has not seen a packet beyond `pts` already. -/
theorem readUntil_eq (pts : Binary64) (undrained : s.drained = false) (unseen : s.sawBeyond pts = false)
    (room : s.pushesBack = false) :
    s.readUntil pts =
      ((reading pts s.source.isOpen s.source.arrivals).ready,
        s.takeIn (reading pts s.source.isOpen s.source.arrivals)) := by
  generalize arrived : s.source.arrivals = arrivals
  induction arrivals generalizing s with
  | nil =>
      rw [readUntil_poll (by simp [undrained, unseen, isFull, room]), reading, takeIn_nothing, ← arrived]
      have same : { s.source with arrivals := [] } = s.source := by rw [← arrived]
      cases isOpen : s.source.isOpen <;> simp [Source.poll, arrived, isOpen, same]
  | cons a rest ih =>
      rw [readUntil_poll (by simp [undrained, unseen, isFull, room])]
      cases a with
      | stall => simp [Source.poll, arrived, reading, takeIn_nothing]
      | failure => simp [Source.poll, arrived, reading, takeIn_nothing]
      | ending => simp [Source.poll, arrived, reading, takeIn_nothing]
      | packet p =>
          simp only [Source.poll, arrived, reading]
          split
          · next beyond =>
              rw [takeIn, enter_cons, enter_nil]
              rfl
          · next within =>
              obtain ⟨drained, lastRead, pushesBack⟩ :=
                deliver_frame p { s with source := { s.source with arrivals := rest }, lastRead := p.pts }
              rw [takeIn_cons p _ rest, ih (drained.trans undrained) ?_ (pushesBack.trans room) ?_]
              · simp [Source.isOpen]
              · simpa [sawBeyond, lastRead] using within
              · simp

/-! ## What reading leaves alone -/

/-- The options, the worker and what is out are as they were. -/
structure Undisturbed (s s' : Stream σ) : Prop where
  options : s'.options = s.options
  pushesBack : s'.pushesBack = s.pushesBack
  worker : s'.worker = s.worker
  current : s'.current = s.current
  reserved : s'.reserved = s.reserved

omit [Backend σ] in
theorem Undisturbed.refl (s : Stream σ) : Undisturbed s s := ⟨rfl, rfl, rfl, rfl, rfl⟩

omit [Backend σ] in
theorem Undisturbed.trans {s' s'' : Stream σ} (first : Undisturbed s s') (second : Undisturbed s' s'') :
    Undisturbed s s'' where
  options := second.options.trans first.options
  pushesBack := second.pushesBack.trans first.pushesBack
  worker := second.worker.trans first.worker
  current := second.current.trans first.current
  reserved := second.reserved.trans first.reserved

theorem undisturbed_deliver (p : Packet) (s : Stream σ) : Undisturbed s (s.deliver p) := by
  unfold deliver
  split <;> exact ⟨rfl, rfl, rfl, rfl, rfl⟩

theorem undisturbed_enter (ps : List Packet) (s : Stream σ) : Undisturbed s (s.enter ps) := by
  unfold enter
  split <;> exact ⟨rfl, rfl, rfl, rfl, rfl⟩

theorem undisturbed_readUntil (pts : Binary64) (s : Stream σ) : Undisturbed s (s.readUntil pts).2 := by
  fun_induction readUntil pts s with
  | case1 s done => exact .refl s
  | case2 s unread p source polled s' beyond =>
      have delivered := undisturbed_deliver p { s with source, lastRead := p.pts }
      exact ⟨delivered.options, delivered.pushesBack, delivered.worker, delivered.current, delivered.reserved⟩
  | case3 s unread p source polled s' within ih =>
      have delivered := undisturbed_deliver p { s with source, lastRead := p.pts }
      exact Undisturbed.trans
        ⟨delivered.options, delivered.pushesBack, delivered.worker, delivered.current, delivered.reserved⟩ ih
  | case4 s unread source polled => exact ⟨rfl, rfl, rfl, rfl, rfl⟩
  | case5 s unread source polled => exact ⟨rfl, rfl, rfl, rfl, rfl⟩
  | case6 s unread source polled => exact ⟨rfl, rfl, rfl, rfl, rfl⟩

omit [Backend σ] in
theorem undisturbed_request (pts : Binary64) (s : Stream σ) : Undisturbed s (s.request pts) := by
  unfold request
  split <;> exact ⟨rfl, rfl, rfl, rfl, rfl⟩

omit [Backend σ] in
/-- Without a worker nobody renders ahead. -/
theorem request_of_not_threaded (alone : s.threaded = false) (pts : Binary64) : s.request pts = s :=
  if_neg fun threaded => Bool.noConfusion (alone.symm.trans threaded)

theorem undisturbed_prepare (pts : Binary64) (s : Stream σ) : Undisturbed s (s.prepare pts).2 := by
  refine (undisturbed_readUntil pts s).trans ?_
  show Undisturbed _ (if (s.readUntil pts).1 then _ else _)
  split
  · exact undisturbed_request pts _
  · exact .refl _

/-- What pushes back is not drained. -/
theorem drain_of_pushesBack (room : s.pushesBack = true) : s.drain = (some false, s) := if_pos room

/-- Draining takes every packet up to the end of the source. -/
theorem drain_eq (room : s.pushesBack = false) (closed : s.source.isOpen = false) :
    s.drain = (some true, { enter s.source.untilEnd { s with source := s.source.pastEnd } with drained := true }) := by
  rw [drain, room, closed, if_neg Bool.false_ne_true, if_neg Bool.false_ne_true]
  simp only [foldl_deliver]

theorem drain_of_threaded (threaded : s.threaded = true) (room : s.pushesBack = false)
    (closed : s.source.isOpen = false) :
    s.drain = (some true, { s with
      source := s.source.pastEnd
      pending := s.pending ++ s.source.untilEnd
      drained := true }) :=
  (drain_eq room closed).trans
    (congrArg (fun t : Stream σ => (some true, { t with drained := true })) (if_pos threaded))

theorem drain_of_not_threaded (alone : s.threaded = false) (room : s.pushesBack = false)
    (closed : s.source.isOpen = false) :
    s.drain = (some true, { s with
      source := s.source.pastEnd
      backend := s.source.untilEnd.foldl (fun b p => b.decode p) s.backend
      drained := true }) :=
  (drain_eq room closed).trans
    (congrArg (fun t : Stream σ => (some true, { t with drained := true }))
      (if_neg fun threaded => Bool.noConfusion (alone.symm.trans threaded)))

theorem undisturbed_drain (s : Stream σ) : Undisturbed s s.drain.2 := by
  unfold drain
  split
  · exact .refl s
  · split
    · exact .refl s
    · simp only [foldl_deliver]
      have entered := undisturbed_enter s.source.untilEnd { s with source := s.source.pastEnd }
      exact ⟨entered.options, entered.pushesBack, entered.worker, entered.current, entered.reserved⟩

theorem undisturbed_text (pts : Binary64) (s : Stream σ) : Undisturbed s (s.text pts).2 := by
  unfold text
  split <;> exact ⟨rfl, rfl, rfl, rfl, rfl⟩

end Stream
end Subtitles
