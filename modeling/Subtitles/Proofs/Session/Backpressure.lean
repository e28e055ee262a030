/-
# Proofs.Session.Backpressure: one packet at a time

A backend that pushes back gets its packets straight from the source, each when it has room. Its log
says so: replayed from the start it leads to the state the backend is in, and before each packet in it
the replay has room (`Roomy`). A picture takes one place and nothing else takes any, so such a log never
leads to more pictures than there are places (`size_replay_le`).

What reads and other actions keep is `Stream.Paced`: besides the log, that there is no worker, and that
the packets decoded and those left in the source are the packets that arrived, in order. A read keeps it
packet by packet (`Paced.readUntil`), a run action by action (`Session.run_paced`).
-/
import Subtitles.Proofs.PictureBackend.Newest
import Subtitles.Proofs.Session.Workers
namespace Subtitles

set_option autoImplicit false

/-! ## The log, replayed -/

section Replay

variable {σ : Type} [Backend σ]

/-- What a call makes of the state of a backend. -/
def Call.applyTo : Call → σ → σ
  | .decode p, b => Backend.decode p b
  | .render _ pts g _, b => (Backend.render g pts b).2
  | .text pts, b => (Backend.text pts b).2
  | .reset, b => Backend.reset b
  | .select on, b => Backend.select on b
  | .control command, b => (Backend.control command b).2
  | .close, b => Backend.close b

/-- The state that the calls of a log lead to. -/
def replay (fresh : σ) (calls : List Call) : σ := calls.foldr Call.applyTo fresh

/-- Each packet came when the backend, as the calls before it left it, had room. -/
def Roomy (fresh : σ) (calls : List Call) : Prop :=
  ∀ p older, .decode p :: older <:+ calls → Backend.accepts (replay fresh older) ≠ some false

variable {fresh : σ} {calls : List Call} {c : Call}

theorem Roomy.suffix {older : List Call} (roomy : Roomy fresh calls) (suffix : older <:+ calls) : Roomy fresh older :=
  fun p before within => roomy p before (within.trans suffix)

theorem Roomy.decode {p : Packet} (roomy : Roomy fresh calls)
    (room : Backend.accepts (replay fresh calls) ≠ some false) : Roomy fresh (.decode p :: calls) := by
  intro q older within
  rcases List.suffix_cons_iff.1 within with same | before
  · obtain ⟨-, rfl⟩ := List.cons.inj same
    exact room
  · exact roomy q older before

/-- A call that decodes nothing needs no room. -/
theorem Roomy.quiet (roomy : Roomy fresh calls) (quiet : c.packet? = none) : Roomy fresh (c :: calls) := by
  intro q older within
  rcases List.suffix_cons_iff.1 within with same | before
  · obtain ⟨rfl, -⟩ := List.cons.inj same
    exact absurd quiet nofun
  · exact roomy q older before

theorem decoded_quiet (quiet : c.packet? = none) : decoded (c :: calls) = decoded calls := by
  rw [decoded, List.filterMap_cons_none quiet]
  rfl

end Replay

/-! ## The places of the picture backend -/

namespace PictureBackend

variable {b fresh : PictureBackend}

theorem accepts_ne_iff : Backend.accepts b ≠ some false ↔ b.pictures.size < maxPending := by
  show some (decide _) ≠ some false ↔ _
  simp

theorem pictures_init (codec : Codec) (b : PictureBackend) : (b.init codec).2.pictures = b.pictures := by
  unfold PictureBackend.init
  split
  · rfl
  · split
    · rfl
    · split <;> rfl

/-- A packet fills one place at most. -/
theorem size_decode_le (p : Packet) (b : PictureBackend) : (b.decode p).pictures.size ≤ b.pictures.size + 1 := by
  unfold PictureBackend.decode
  split
  · exact Nat.le_succ _
  · next start part _ =>
      have cut : (b.pictures.map (cutAt start)).size = b.pictures.size := List.length_map ..
      refine Nat.le_of_eq ?_
      rw [RingBuffer.size_insertIdx _ _ (RingBuffer.partitionPoint_le _ _), cut]

/-- Nothing else fills one. -/
theorem size_applyTo_le {c : Call} (quiet : c.packet? = none) (b : PictureBackend) :
    (c.applyTo b).pictures.size ≤ b.pictures.size := by
  cases c with
  | decode p => exact absurd quiet nofun
  | render purpose pts g frame =>
      show (b.render g pts).2.pictures.size ≤ _
      rw [(render_frame b g pts).2.1, RingBuffer.size_drop]
      exact Nat.sub_le ..
  | reset => exact Nat.zero_le _
  | control command => cases command <;> exact Nat.le_refl _
  | text pts => exact Nat.le_refl _
  | select on => exact Nat.le_refl _
  | close => exact Nat.le_refl _

theorem size_replay_le {calls : List Call} (roomy : Roomy fresh calls) (start : fresh.pictures.size ≤ maxPending) :
    (replay fresh calls).pictures.size ≤ maxPending := by
  induction calls with
  | nil => exact start
  | cons c calls ih =>
      cases packet : c.packet? with
      | none => exact Nat.le_trans (size_applyTo_le packet _) (ih (roomy.suffix (List.suffix_cons ..)))
      | some p =>
          obtain ⟨q, rfl⟩ : ∃ q, c = .decode q := by
            cases c with
            | decode q => exact ⟨q, rfl⟩
            | _ => cases packet
          have room := accepts_ne_iff.1 (roomy q calls (List.suffix_refl _))
          exact Nat.le_trans (size_decode_le q _) room

end PictureBackend

/-! ## Streams -/

theorem Source.packets_push (source : Source) (p : Packet) : (source.push p).packets = source.packets ++ [p] := by
  rw [packets, push, packetsOf, List.filterMap_append]
  rfl

theorem Source.eq_push_of_send? {source sent : Source} {p : Packet} (done : source.send? p = some sent) :
    sent = source.push p := by
  unfold send? at done
  split at done
  · exact (Option.some.inj done).symm
  · exact absurd done nofun

theorem Source.packets_poll_packet {source rest : Source} {p : Packet} (polled : source.poll = (.packet p, rest)) :
    source.packets = p :: rest.packets := by
  rw [packets, arrivals_poll_packet polled]
  rfl

/-- Where no packet comes, none is gone. -/
theorem Source.packets_poll_other (source : Source) (other : ∀ p, source.poll.1 ≠ .packet p) :
    source.poll.2.packets = source.packets := by
  unfold poll at other ⊢
  split
  · rfl
  · next p rest arrived =>
      rw [arrived] at other
      exact absurd rfl (other p)
  · next arrived => exact (congrArg packetsOf arrived).symm
  · next arrived => exact (congrArg packetsOf arrived).symm
  · next arrived => exact (congrArg packetsOf arrived).symm

namespace Stream

variable {fresh : PictureBackend} {all : List Packet} {s t : Stream PictureBackend}

/-- Of all packets that arrived the first were decoded, each when there was room, and the others are
still in the source. -/
structure Paced (fresh : PictureBackend) (all : List Packet) (s : Stream PictureBackend) : Prop where
  pushesBack : s.pushesBack = true
  worker : s.worker = .absent
  /-- Nobody renders ahead for a geometry. -/
  unset : s.geometry.isVoid = true
  state : s.backend.state = replay fresh s.backend.calls
  roomy : Roomy fresh s.backend.calls
  arrived : decoded s.backend.calls ++ s.source.packets = all

theorem Paced.threaded (paced : s.Paced fresh all) : s.threaded = false := by
  rw [Stream.threaded, paced.worker]
  rfl

/-- A full backend is read nothing for. -/
theorem Paced.readUntil_of_full (paced : s.Paced fresh all) (full : Backend.accepts s.backend.state = some false)
    (pts : Binary64) : s.readUntil pts = (true, s) := by
  rw [readUntil, if_pos (by simp [isFull, paced.pushesBack, full])]

theorem Paced.of_call (paced : s.Paced fresh all) (c : Call) (quiet : c.packet? = none)
    (pushesBack : t.pushesBack = s.pushesBack) (worker : t.worker = s.worker) (geometry : t.geometry = s.geometry)
    (source : t.source = s.source) (state : t.backend.state = c.applyTo s.backend.state)
    (calls : t.backend.calls = c :: s.backend.calls) : t.Paced fresh all where
  pushesBack := pushesBack.trans paced.pushesBack
  worker := worker.trans paced.worker
  unset := geometry ▸ paced.unset
  state := by rw [state, calls, paced.state]; rfl
  roomy := calls ▸ paced.roomy.quiet quiet
  arrived := by rw [calls, decoded_quiet quiet, source, paced.arrived]

/-- The source may have got packets meanwhile. -/
theorem Paced.of_same (paced : s.Paced fresh all) (more : List Packet) (pushesBack : t.pushesBack = s.pushesBack)
    (worker : t.worker = s.worker) (geometry : t.geometry = s.geometry) (backend : t.backend = s.backend)
    (source : t.source.packets = s.source.packets ++ more) : t.Paced fresh (all ++ more) where
  pushesBack := pushesBack.trans paced.pushesBack
  worker := worker.trans paced.worker
  unset := geometry ▸ paced.unset
  state := backend ▸ paced.state
  roomy := backend ▸ paced.roomy
  arrived := by rw [backend, source, ← List.append_assoc, paced.arrived]

theorem Paced.of_source {source : Source} (paced : s.Paced fresh all) (same : source.packets = s.source.packets) :
    { s with source }.Paced fresh all := by
  have kept := paced.of_same (t := { s with source }) [] rfl rfl rfl rfl (same.trans (List.append_nil _).symm)
  rwa [List.append_nil] at kept

/-- A packet goes from the source to the backend. -/
theorem Paced.take {p : Packet} {source : Source} {lastRead : Option Binary64} (paced : s.Paced fresh all)
    (full : s.isFull = false) (taken : s.source.packets = p :: source.packets) :
    (deliver p { s with source, lastRead }).Paced fresh all := by
  have room : Backend.accepts (replay fresh s.backend.calls) ≠ some false := by
    rw [← paced.state]
    simpa [isFull, paced.pushesBack] using full
  have direct : deliver p { s with source, lastRead } =
      { s with source, lastRead, backend := s.backend.decode p } :=
    if_neg fun threaded => Bool.noConfusion (paced.threaded.symm.trans threaded)
  rw [direct]
  refine ⟨paced.pushesBack, paced.worker, paced.unset, ?_, paced.roomy.decode room, ?_⟩
  · show Backend.decode p s.backend.state = Backend.decode p (replay fresh s.backend.calls)
    rw [paced.state]
  · show decoded (.decode p :: s.backend.calls) ++ source.packets = all
    rw [decoded_decode, List.append_assoc, ← paced.arrived, taken]
    rfl

/-- A read takes one packet after the other, and looks for room before each. -/
theorem Paced.readUntil (paced : s.Paced fresh all) (pts : Binary64) : (s.readUntil pts).2.Paced fresh all := by
  have polledOther : ∀ {s : Stream PictureBackend} {answer source}, s.source.poll = (answer, source) →
      (∀ p, answer ≠ .packet p) → source.packets = s.source.packets := by
    intro s answer source polled other
    have same := s.source.packets_poll_other (by rw [polled]; exact other)
    rwa [polled] at same
  fun_induction Stream.readUntil pts s with
  | case1 s done => exact paced
  | case2 s goesOn p source polled s' beyond =>
      exact paced.take (by simp_all) (Source.packets_poll_packet polled)
  | case3 s goesOn p source polled s' within ih =>
      exact ih (paced.take (by simp_all) (Source.packets_poll_packet polled))
  | case4 s goesOn source polled => exact paced.of_source (polledOther polled (by simp))
  | case5 s goesOn source polled => exact paced.of_source (polledOther polled (by simp))
  | case6 s goesOn source polled => exact paced.of_source (polledOther polled (by simp))

theorem Paced.prepare (paced : s.Paced fresh all) (pts : Binary64) : (s.prepare pts).2.Paced fresh all := by
  have read := paced.readUntil pts
  show Paced fresh all (if (s.readUntil pts).1 then (s.readUntil pts).2.request pts else (s.readUntil pts).2)
  rw [request_of_not_threaded read.threaded, ite_self]
  exact read

/-- There is nothing to look up, so a frame is rendered, unless one is out. -/
theorem Paced.acquire (paced : s.Paced fresh all) (g : Geometry) (pts : Binary64) :
    (s.acquire g pts).2.Paced fresh all := by
  have missed : s.lookUp g pts = (.miss, s) := if_pos (by rw [paced.threaded]; rfl)
  have onDemand : s.acquire g pts = s.renderOnDemand g pts := by rw [Stream.acquire, missed]
  rw [onDemand]
  unfold Stream.renderOnDemand
  split
  · exact paced
  · exact paced.of_call (.render .demand pts g _) rfl rfl rfl rfl rfl rfl rfl

theorem Paced.reset (paced : s.Paced fresh all) (reset : s.reset = .ok t) : t.Paced fresh all := by
  obtain ⟨cache, -, rfl⟩ := reset_cases reset
  exact paced.of_call .reset rfl rfl rfl rfl rfl rfl rfl

theorem Paced.release {f : HeldFrame} (paced : s.Paced fresh all) (released : s.release f = .ok t) :
    t.Paced fresh all := by
  obtain ⟨h, cache, -, -, -, rfl⟩ | ⟨-, -, rfl⟩ := release_cases released <;>
    exact ⟨paced.pushesBack, paced.worker, paced.unset, paced.state, paced.roomy, paced.arrived⟩

/-- A stream opened with one candidate has it for its backend, as it prepared for the codec. -/
theorem eq_ofBackend_of_opened {σ : Type} [Backend σ] {codec : Codec} {source : Source} {options : Options}
    {candidate : σ} {s : Stream σ} (opened : (Stream.open? codec source options [candidate]).2 = .ok s) :
    s = ofBackend codec source options (Backend.init codec candidate).2 := by
  unfold Stream.open? at opened
  cases checked : options.check with
  | error e =>
      rw [checked] at opened
      exact absurd opened nofun
  | ok _ =>
      rw [checked] at opened
      simp only [openFirst] at opened
      cases answer : (Backend.init codec candidate).1 with
      | error e =>
          rw [answer] at opened
          exact absurd opened nofun
      | ok _ =>
          rw [answer] at opened
          exact (Except.ok.inj opened).symm

/-- A stream with a picture backend begins without a worker, whatever the options are. -/
theorem paced_of_opened {codec : Codec} {source : Source} {options : Options}
    (opened : (Stream.open? codec source options [({} : PictureBackend)]).2 = .ok s) :
    s.Paced s.backend.state source.packets ∧ s.backend.state.pictures.size ≤ PictureBackend.maxPending := by
  obtain rfl := eq_ofBackend_of_opened opened
  refine ⟨⟨rfl, ?_, rfl, rfl, fun p older within => absurd (List.eq_nil_of_suffix_nil within) nofun, rfl⟩, ?_⟩
  · show (if _ then Worker.running else .absent) = .absent
    exact if_neg (by simp [Backend.accepts])
  · show (PictureBackend.init codec {}).2.pictures.size ≤ _
    rw [PictureBackend.pictures_init]
    exact Nat.zero_le _

end Stream

/-! ## Sessions -/

/-- The packet that an action put into the source, told by its answer. -/
def Action.sent? : Action → Answer → Option Packet
  | .send p, .flag true => some p
  | _, _ => none

namespace Session

variable {fresh : PictureBackend} {all : List Packet} {s : Session PictureBackend} {a : Action}
  {actions : List Action}

/-- The packets put into the source on a run, in order. -/
def sent {σ : Type} [Backend σ] (s : Session σ) (actions : List Action) : List Packet :=
  s.gathered Action.sent? actions

/-- Only packets that go past the source are not held back. -/
theorem turn_paced (paced : s.stream.Paced fresh all) (unfed : ∀ p, a ≠ .offer p) :
    (s.turn a).Paced fresh (all ++ (a.sent? (s.perform a).1).toList) := by
  have same : ∀ {t : Stream PictureBackend}, t.Paced fresh all → t.Paced fresh (all ++ []) := fun paced =>
    (List.append_nil all).symm ▸ paced
  cases a with
  | offer p => exact absurd rfl (unfed p)
  | request pts =>
      refine same ?_
      rw [turn, Stream.request_of_not_threaded paced.threaded]
      exact paced
  | prepare pts => exact same (paced.prepare pts)
  | drain =>
      refine same ?_
      rw [turn, Stream.drain_of_pushesBack paced.pushesBack, ite_self]
      exact paced
  | text pts =>
      refine same ?_
      rw [turn, Stream.text]
      split
      · exact paced.of_call (.text pts) rfl rfl rfl rfl rfl rfl rfl
      · exact paced
  | control command => exact same (paced.of_call (.control command) rfl rfl rfl rfl rfl rfl rfl)
  | select on => exact same (paced.of_call (.select on) rfl rfl rfl rfl rfl rfl rfl)
  | video params =>
      refine same ?_
      rw [turn, Stream.noteVideo]
      split
      · exact paced
      · exact paced.of_call (.control (.video params)) rfl rfl rfl rfl rfl rfl rfl
  | reset =>
      refine same ?_
      obtain kept | reset := s.turn_reset_cases
      · rw [kept]
        exact paced
      · exact paced.reset reset
  | acquire g pts => exact same (paced.acquire g pts)
  | release =>
      refine same ?_
      obtain kept | ⟨f, -, released⟩ := s.turn_release_cases
      · rw [kept]
        exact paced
      · exact paced.release released
  | send p =>
      rw [turn, perform]
      cases sent : s.stream.source.send? p with
      | none => exact same paced
      | some source =>
          obtain rfl := Source.eq_push_of_send? sent
          exact paced.of_same [p] rfl rfl rfl rfl (Source.packets_push _ p)
  | close => exact same (paced.of_source rfl)
  | overtake pts g =>
      have alone : s.canOvertake g = false := by simp [canOvertake, paced.unset]
      refine same ?_
      rw [turn, overtake, alone]
      exact paced

theorem step_paced (paced : s.stream.Paced fresh all) (unfed : ∀ p, a ≠ .offer p) :
    (s.step a).2.stream.Paced fresh (all ++ (a.sent? (s.step a).1).toList) := by
  cases waits : s.holdsBackend && a.needsBackend with
  | false =>
      have turned := turn_paced paced unfed
      rw [step_eq waits]
      show (s.turn a).settle.Paced fresh _
      rw [Stream.settle_of_not_running (by rw [turned.worker]; exact nofun)]
      exact turned
  | true =>
      rw [step_of_waits waits]
      have nothing : a.sent? (.refused .frameHeld) = none := by cases a <;> rfl
      rw [nothing, Option.toList_none, List.append_nil]
      exact paced

theorem run_paced (paced : s.stream.Paced fresh all) (unfed : ∀ p, .offer p ∉ actions) :
    (s.run actions).2.stream.Paced fresh (all ++ s.sent actions) := by
  induction actions generalizing s all with
  | nil =>
      rw [show s.sent [] = [] from rfl, List.append_nil]
      exact paced
  | cons a rest ih =>
      have stepped := step_paced paced (a := a) fun p same => unfed p (same ▸ List.mem_cons_self)
      rw [sent, gathered_cons, ← List.append_assoc]
      exact ih stepped fun p member => unfed p (List.mem_cons_of_mem _ member)

end Session

/-- Whatever is asked of a stream with a picture backend, packets fed past its source apart: no worker
runs, and the packets decoded so far are the first of those that the source ever had, in order, the
others being still there. Each was decoded when the backend, as all calls before left it, had room, so
there are never more pictures than places; and while there is no room a read leaves the source alone. -/
theorem backpressure_holds {codec : Codec} {source : Source} {options : Options} {stream : Stream PictureBackend}
    (opened : (Stream.open? codec source options [({} : PictureBackend)]).2 = .ok stream) {actions : List Action}
    (unfed : ∀ p, .offer p ∉ actions) :
    ∃ s t : Session PictureBackend, s = ⟨stream, none⟩ ∧ t = (s.run actions).2 ∧
      t.stream.worker = .absent ∧
      decoded t.stream.backend.calls ++ t.stream.source.packets = source.packets ++ s.sent actions ∧
      t.stream.backend.state = replay stream.backend.state t.stream.backend.calls ∧
      (∀ calls, calls <:+ t.stream.backend.calls →
        (replay stream.backend.state calls).pictures.size ≤ PictureBackend.maxPending) ∧
      (∀ p calls, .decode p :: calls <:+ t.stream.backend.calls →
        Backend.accepts (replay stream.backend.state calls) ≠ some false) ∧
      (Backend.accepts t.stream.backend.state = some false → ∀ pts, t.stream.readUntil pts = (true, t.stream)) := by
  obtain ⟨began, room⟩ := Stream.paced_of_opened opened
  have paced := Session.run_paced (s := ⟨stream, none⟩) began unfed
  refine ⟨⟨stream, none⟩, _, rfl, rfl, paced.worker, paced.arrived, paced.state, fun calls within => ?_,
    paced.roomy, paced.readUntil_of_full⟩
  exact PictureBackend.size_replay_le (paced.roomy.suffix within) room

/-! Four pictures fill the places, and a packet that is none goes by. Once a frame is asked for, two of
them are over and two more packets come in. -/

def crowd : List Packet :=
  [⟨some .one, none, #[]⟩, ⟨some (.ofNat 2), none, #[1, 2]⟩, ⟨some (.ofNat 3), none, #[]⟩,
    ⟨some (.ofNat 4), none, #[]⟩, ⟨some (.ofNat 5), none, #[]⟩, ⟨some (.ofNat 6), none, #[]⟩,
    ⟨some (.ofNat 7), none, #[]⟩, ⟨some (.ofNat 8), none, #[]⟩]

def crowdCodec : Codec := { name := "picture" }

def crowdStream : Stream PictureBackend := .ofBackend crowdCodec (.ofPackets crowd) { renderAhead := 3 } {}

def crowdSession : Session PictureBackend := ⟨crowdStream, none⟩

def crowdReads : List Action := [.prepare (.ofNat 9), .prepare (.ofNat 9)]

def crowdActions : List Action :=
  crowdReads ++ [.acquire { width := 64, height := 48 } (.ofNat 4), .release, .prepare (.ofNat 9)]

theorem backpressure_holds_crowd :
    (Stream.open? crowdCodec (.ofPackets crowd) { renderAhead := 3 } [({} : PictureBackend)]).2 = .ok crowdStream ∧
      (∀ p, .offer p ∉ crowdActions) ∧
      decoded (crowdSession.run crowdReads).2.stream.backend.calls = crowd.take 5 ∧
      ∃ t, t = (crowdSession.run crowdActions).2 ∧
        t.stream.worker = .absent ∧
        decoded t.stream.backend.calls ++ t.stream.source.packets = crowd ∧
        decoded t.stream.backend.calls = crowd.take 7 ∧
        (∀ calls, calls <:+ t.stream.backend.calls →
          (replay crowdStream.backend.state calls).pictures.size ≤ PictureBackend.maxPending) ∧
        Backend.accepts t.stream.backend.state = some false ∧
        ∀ pts, t.stream.readUntil pts = (true, t.stream) := by
  have opened : (Stream.open? crowdCodec (.ofPackets crowd) { renderAhead := 3 } [({} : PictureBackend)]).2 =
      .ok crowdStream := rfl
  have unfed : ∀ p, .offer p ∉ crowdActions := by simp [crowdActions, crowdReads]
  obtain ⟨s, t, began, rfl, alone, arrived, -, bounded, -, still⟩ := backpressure_holds opened unfed
  obtain rfl : s = crowdSession := began
  have full : Backend.accepts (crowdSession.run crowdActions).2.stream.backend.state = some false := by decide +kernel
  exact ⟨opened, unfed, by decide +kernel, _, rfl, alone, arrived, by decide +kernel, bounded, full, still full⟩

end Subtitles
