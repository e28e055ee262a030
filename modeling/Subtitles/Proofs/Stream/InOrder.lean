/-
# Proofs.Stream.InOrder: early renders of a stream in order stay right

Packets come in the order of their timestamps, and a time is only queued when every packet still
in the source lies beyond it. So what the worker renders ahead is drawn the same from the packets
decoded then and from those decoded later (`InOrder.drew`). Reading, the rounds of the worker and
taking frames out keep this, each by a lemma.
-/
import Mathlib.Data.List.TakeWhile
import Subtitles.Proofs.Stream.Acquire
import Subtitles.Proofs.Stream.Reading
import Subtitles.Proofs.TextBackend.Changes
namespace Subtitles

set_option autoImplicit false

/-- The packet has no timestamp up to a time. -/
def Packet.IsBeyond (p : Packet) (pts : Binary64) : Prop := ∀ t, p.pts = some t → ¬ t ≤ pts

theorem Source.packets_ofPackets (ps : List Packet) : (Source.ofPackets ps).packets = ps := by
  induction ps with
  | nil => rfl
  | cons p ps ih => exact congrArg (p :: ·) ih

/-- A row of packets has no end before its last. -/
theorem Source.untilEnd_ofPackets (ps : List Packet) :
    (Source.ofPackets ps).untilEnd = ps ∧ (Source.ofPackets ps).pastEnd = .ofPackets [] := by
  have endless : ∀ a ∈ ps.map Arrival.packet, decide (a ≠ .ending) = true := by simp
  have none : (ps.map Arrival.packet).dropWhile (· ≠ .ending) = [] := List.dropWhile_eq_nil_iff.2 endless
  refine ⟨?_, ?_⟩
  · rw [untilEnd, ofPackets, List.takeWhile_eq_self_iff.2 endless]
    exact packets_ofPackets ps
  · rw [pastEnd, ofPackets, none]
    rfl

namespace Stream

variable {s s' : Stream TextBackend}

structure InOrder (s : Stream TextBackend) : Prop where
  source : ∃ ps, s.source = .ofPackets ps
  awaits : s.backend.state.Awaits (s.pending ++ s.source.packets)
  seen : ∀ l, s.lastRead = some l → ∀ p ∈ s.source.packets, ∀ t, p.pts = some t → l ≤ t
  finished : s.drained = true → s.source.packets = []
  queued : ∀ h ∈ s.cache.queue, ∀ q, s.cache.pts? h = some q → ∀ p ∈ s.source.packets, p.IsBeyond q
  drew : ∀ pts g f, .render .ahead pts g f ∈ s.backend.calls →
    s.backend.state.Draws g pts f ∧ ∀ p ∈ s.pending ++ s.source.packets, p.IsBeyond pts

/-- Nothing was read or decoded, and the worker has as much to decode as before. -/
structure Kept (s s' : Stream TextBackend) : Prop where
  source : s'.source = s.source
  lastRead : s'.lastRead = s.lastRead
  drained : s'.drained = s.drained
  pushesBack : s'.pushesBack = s.pushesBack
  options : s'.options = s.options
  pending : s'.pending = s.pending
  events : s.backend.state.SameEvents s'.backend.state

theorem Kept.refl (s : Stream TextBackend) : Kept s s := ⟨rfl, rfl, rfl, rfl, rfl, rfl, .refl _⟩

namespace InOrder

/-- No time was queued, and what was rendered ahead is right. -/
theorem carry (inOrder : s.InOrder) (kept : Kept s s')
    (calls : ∀ pts g f, Call.render .ahead pts g f ∈ s'.backend.calls →
      Call.render .ahead pts g f ∈ s.backend.calls ∨
        s.backend.state.Draws g pts f ∧ ∀ p ∈ s.pending ++ s.source.packets, p.IsBeyond pts)
    (queue : ∀ h ∈ s'.cache.queue, h ∈ s.cache.queue ∧ s'.cache.pts? h = s.cache.pts? h) : s'.InOrder := by
  obtain ⟨source, lastRead, drained, -, -, pending, events⟩ := kept
  refine ⟨source ▸ inOrder.source, ?_, ?_, ?_, ?_, ?_⟩
  · rw [pending, source]
    exact inOrder.awaits.congr events
  · rw [lastRead, source]
    exact inOrder.seen
  · rw [drained, source]
    exact inOrder.finished
  · rw [source]
    intro h member q time
    exact inOrder.queued h (queue h member).1 q ((queue h member).2 ▸ time)
  · intro pts g f call
    obtain ⟨draws, beyond⟩ := (calls pts g f call).elim (inOrder.drew pts g f) id
    rw [pending, source]
    exact ⟨draws.of_sameEvents events, beyond⟩

/-- What an entry shows is still right. -/
theorem draws_of_shows {since : List Call} {latest : Option RenderCall} {c : Cache} {g : Geometry} {h : Handle}
    {pts : Binary64} {frame : Frame} (inOrder : s.InOrder)
    (shows : Shows since (s.backend.calls, latest) c g h pts frame) : s.backend.state.Draws g pts frame := by
  obtain ⟨got, ⟨newer, older, calls, -⟩, content⟩ := shows.ahead
  have call : Call.render .ahead pts g got ∈ s.backend.calls := by
    rw [show s.backend.calls = _ from calls]
    exact List.mem_append_right _ List.mem_cons_self
  obtain ⟨parts, drawn, made⟩ := (inOrder.drew _ _ _ call).1
  exact ⟨parts, drawn, made.of_sameContent content⟩

/-! ## Reading -/

/-- What is taken from the source comes before the rest. -/
theorem le_of_parts {taken rest : List Packet} (inOrder : s.InOrder) (parts : s.source.packets = taken ++ rest) :
    ∀ p ∈ taken, ∀ q ∈ rest, ∀ l t, p.pts = some l → q.pts = some t → l ≤ t := by
  have sorted := inOrder.awaits.sorted
  rw [parts, ← List.append_assoc] at sorted
  intro p first q later
  exact (List.pairwise_append.1 sorted).2.2 p (List.mem_append_right _ first) q later

/-- Packets taken from the source wait for the worker. -/
theorem take {taken : List Packet} (inOrder : s.InOrder) (rest : List Packet) (lastRead : Option Binary64)
    (parts : s.source.packets = taken ++ rest)
    (seen : ∀ l, lastRead = some l → ∀ p ∈ rest, ∀ t, p.pts = some t → l ≤ t) :
    { s with source := .ofPackets rest, lastRead, pending := s.pending ++ taken }.InOrder := by
  have packets := Source.packets_ofPackets rest
  have whole : s.pending ++ s.source.packets = s.pending ++ taken ++ rest := by
    rw [parts, List.append_assoc]
  have part : ∀ p ∈ rest, p ∈ s.source.packets := fun p member =>
    parts ▸ List.mem_append_right _ member
  refine ⟨⟨rest, rfl⟩, ?_, ?_, ?_, ?_, ?_⟩
  · rw [packets, ← whole]
    exact inOrder.awaits
  · rw [packets]
    exact seen
  · intro drained
    have none := inOrder.finished drained
    rw [parts] at none
    rw [packets]
    exact (List.append_eq_nil_iff.1 none).2
  · rw [packets]
    exact fun h member q time p later => inOrder.queued h member q time p (part p later)
  · intro pts g f call
    obtain ⟨draws, beyond⟩ := inOrder.drew pts g f call
    rw [packets, ← whole]
    exact ⟨draws, beyond⟩

end InOrder

/-- Where the last packet read or the last one before it lies beyond a time, so do all to come. -/
theorem isBeyond_of_lt {pts l : Binary64} {p : Packet} (later : pts < l)
    (seen : ∀ t, p.pts = some t → l ≤ t) : p.IsBeyond pts :=
  fun t time due => Binary64.not_le_of_lt (Binary64.lt_of_lt_of_le later (seen t time)) due

/-- A read for `pts` always succeeds, and leaves packets beyond `pts` in the source. -/
theorem InOrder.readUntil (inOrder : s.InOrder) (threaded : s.threaded = true) (room : s.pushesBack = false)
    (pts : Binary64) :
    (s.readUntil pts).1 = true ∧ (s.readUntil pts).2.InOrder ∧
      ∀ p ∈ (s.readUntil pts).2.source.packets, p.IsBeyond pts := by
  by_cases done : (s.drained || s.sawBeyond pts) = true
  · have stays : s.readUntil pts = (true, s) := by
      rw [Stream.readUntil, if_pos (by rw [done]; rfl)]
    rw [stays]
    refine ⟨rfl, inOrder, ?_⟩
    intro p member
    rcases (Bool.or_eq_true _ _).mp done with drained | saw
    · rw [inOrder.finished drained] at member
      exact absurd member List.not_mem_nil
    · obtain ⟨l, last, later⟩ := (Option.any_eq_true ..).1 saw
      exact isBeyond_of_lt (of_decide_eq_true later) (inOrder.seen l last p member)
  · obtain ⟨drained, unseen⟩ := Bool.or_eq_false_iff.1 (Bool.not_eq_true _ ▸ done)
    obtain ⟨ps, source⟩ := inOrder.source
    obtain ⟨taken, rest, read, parts, last⟩ := reading_packets pts ps
    have arrived : reading pts s.source.isOpen s.source.arrivals = ⟨true, taken, rest.map .packet⟩ := by
      rw [source]
      exact read
    have packets : s.source.packets = taken ++ rest := by
      rw [source, Source.packets_ofPackets, parts]
    have ordered := inOrder.le_of_parts packets
    have became : s.readUntil pts = (true, { s with
        source := .ofPackets rest
        lastRead := (taken.getLast?.map (·.pts)).getD s.lastRead
        pending := s.pending ++ taken }) := by
      rw [readUntil_eq pts drained unseen room, arrived, takeIn_of_threaded threaded, source]
      rfl
    rw [became]
    refine ⟨rfl, inOrder.take rest _ packets fun l seen q member t time => ?_, ?_⟩
    · cases atEnd : taken.getLast? with
      | none =>
          rw [atEnd] at seen
          exact inOrder.seen l seen q (packets ▸ List.mem_append_right _ member) t time
      | some p =>
          rw [atEnd] at seen
          exact ordered p (List.mem_of_getLast? atEnd) q member l t seen time
    · intro q member
      rw [show (Source.ofPackets rest).packets = rest from Source.packets_ofPackets rest] at member
      rcases last with none | ⟨p, l, atEnd, time, later⟩
      · rw [none] at member
        exact absurd member List.not_mem_nil
      · exact isBeyond_of_lt later fun t due => ordered p (List.mem_of_getLast? atEnd) q member l t time due

/-- A time may be queued once no packet in the source is due by it. -/
theorem InOrder.request {lost : List Handle} (inOrder : s.InOrder) (con : s.cache.Consistent lost)
    {pts : Binary64} (beyond : ∀ p ∈ s.source.packets, p.IsBeyond pts) : (s.request pts).InOrder := by
  unfold Stream.request
  split
  · obtain ⟨-, became⟩ := con.request pts
    refine ⟨inOrder.source, inOrder.awaits, inOrder.seen, inOrder.finished, ?_, inOrder.drew⟩
    intro h member q time
    rcases became with ⟨-, arena, queue⟩ | ⟨new, -, -, queue, look⟩
    · rw [queue] at member
      refine inOrder.queued h member q ?_
      rwa [Cache.pts?, Cache.entry?, arena] at time
    · by_cases same : h = new
      · rw [Cache.pts?, look, if_pos same] at time
        rw [← Option.some.inj time]
        exact beyond
      · rw [queue] at member
        rw [Cache.pts?, look, if_neg same] at time
        refine inOrder.queued h ((List.mem_append.1 member).resolve_right fun atEnd => ?_) q time
        exact same (List.mem_singleton.1 atEnd)
  · exact inOrder

/-! ## Rounds of the worker -/

theorem mem_calls_foldl_decode {ps : List Packet} {b : LoggedBackend TextBackend} {pts : Binary64}
    {g : Geometry} {f : Frame}
    (call : .render .ahead pts g f ∈ (ps.foldl (fun b p => b.decode p) b).calls) :
    .render .ahead pts g f ∈ b.calls := by
  rw [LoggedBackend.foldl_decode] at call
  exact (List.mem_append.1 call).resolve_left (by simp)

theorem state_foldl_decode (ps : List Packet) (b : LoggedBackend TextBackend) :
    (ps.foldl (fun b p => b.decode p) b).state = b.state.decodes ps := by
  rw [LoggedBackend.foldl_decode]
  rfl

theorem InOrder.decodePending (inOrder : s.InOrder) : s.decodePending.InOrder := by
  have state := state_foldl_decode s.pending s.backend
  refine ⟨inOrder.source, ?_, inOrder.seen, inOrder.finished, inOrder.queued, ?_⟩
  · show (s.pending.foldl _ s.backend).state.Awaits s.source.packets
    rw [state]
    exact inOrder.awaits.decodes
  · intro pts g f call
    obtain ⟨draws, beyond⟩ := inOrder.drew pts g f (mem_calls_foldl_decode call)
    refine ⟨?_, fun p member => beyond p (List.mem_append_right _ member)⟩
    show (s.pending.foldl _ s.backend).state.Draws g pts f
    rw [state]
    exact draws.decodes inOrder.awaits fun p member => beyond p (List.mem_append_left _ member)

/-- A render is logged, if it does not fault, and draws what it should. -/
theorem render_text (purpose : Purpose) (g : Geometry) (pts : Binary64) (b : LoggedBackend TextBackend) :
    b.state.SameEvents (b.render purpose g pts).2.state ∧
      ((∃ f, (b.render purpose g pts).1 = .ok f ∧ b.state.Draws g pts f ∧
          (b.render purpose g pts).2.calls = .render purpose pts g f :: b.calls) ∨
        ∃ op, (b.render purpose g pts).1 = .error (.overflow op) ∧
          TextBackend.drawn (b.state.active pts) g b.state.atTop = .error (.overflow op) ∧
          (b.render purpose g pts).2.calls = b.calls) := by
  have same : b.state.SameEvents (b.state.render g pts).2 := (TextBackend.sameEvents_render b.state g pts).symm
  obtain ⟨draws, faults, -⟩ := TextBackend.render_cases b.state g pts
  obtain ⟨f, answer, rendered⟩ | ⟨fault, answer, rendered⟩ := b.render_cases purpose g pts
  · rw [rendered]
    exact ⟨same, .inl ⟨f, rfl, draws f (congrArg Prod.fst answer), rfl⟩⟩
  · have fails := faults fault (congrArg Prod.fst answer)
    obtain ⟨op, rfl⟩ := TextBackend.onlyOverflows_drawn _ _ _ fault fails
    rw [rendered]
    exact ⟨same, .inr ⟨op, rfl, fails, rfl⟩⟩

/-- A job leaves alone what was read and decoded. -/
theorem kept_carryOut {lost : List Handle} {job : Job} (con : s.cache.Consistent lost)
    (first : s.cache.firstPending = some job) (pts : Binary64) : Kept s (s.carryOut job pts) := by
  have same := (render_text .ahead s.geometry pts s.backend).1
  obtain ⟨frame, d, -, became, -⟩ | ⟨fault, d, -, became, -⟩ := carryOut_cases con first pts
  · rw [became]
    exact ⟨rfl, rfl, rfl, rfl, rfl, rfl, same⟩
  · rw [became]
    exact ⟨rfl, rfl, rfl, rfl, rfl, rfl, same⟩

/-- A round keeps the order, and if it ends the worker then by an overflow. -/
theorem InOrder.round {lost : List Handle} (inOrder : s.InOrder) (con : s.cache.Consistent lost)
    (round : Round s s') :
    s'.InOrder ∧ (s'.worker = .running ∨ ∃ op, s'.worker = .crashed (.overflow op)) := by
  cases round with
  | decode running => exact ⟨inOrder.decodePending, .inl running⟩
  | @render job pts running decoded next =>
      obtain ⟨-, first, time⟩ := nextJob_spec next
      obtain ⟨queued, -, -⟩ := Cache.firstPending_spec first
      have kept := kept_carryOut con first pts
      obtain ⟨-, rendered⟩ := render_text .ahead s.geometry pts s.backend
      obtain ⟨frame, d, answer, became, -, -, carries, -⟩ | ⟨fault, d, answer, became, -, -, carries⟩ :=
        carryOut_cases con first pts
      · obtain ⟨f, -, draws, calls⟩ | ⟨op, faults, -⟩ := rendered
        · rw [became] at kept ⊢
          refine ⟨inOrder.carry kept (fun pts' g f' call => ?_) fun h member =>
            ⟨carries.queued h member, carries.pts h member⟩, .inl running⟩
          rw [calls] at call
          rcases List.mem_cons.1 call with here | before
          · obtain ⟨-, rfl, rfl, rfl⟩ := Call.render.inj here
            refine .inr ⟨draws, ?_⟩
            intro p member
            rw [decoded] at member
            exact inOrder.queued _ queued _ time p member
          · exact .inl before
        · rw [answer] at faults
          exact absurd faults nofun
      · obtain ⟨f, fits, -⟩ | ⟨op, faults, -, calls⟩ := rendered
        · rw [answer] at fits
          exact absurd fits nofun
        · rw [became] at kept ⊢
          refine ⟨inOrder.carry kept (fun _ _ _ call => .inl (calls ▸ call))
            fun h member => ⟨carries.queued h member, carries.pts h member⟩, .inr ⟨op, ?_⟩⟩
          rw [answer] at faults
          rw [Except.error.inj faults]

end Stream
end Subtitles
