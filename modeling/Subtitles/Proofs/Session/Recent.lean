/-
# Proofs.Session.Recent: what a stream remembers of what it read

A `Trail` is a session with the packets it has read since it was opened or last reset. The stream
itself remembers less: the time of the last of them (`Trail.Kept.remembered`). In a source in order
of time no packet is later than the last that has a time, so that is enough where the last one
read has one (`Packet.isLater_last`). A packet without a time makes the stream forget those read
before it, and then a read goes on as if none of them had been beyond its time.

What a read does when it goes on is told by where it stops (`StopsAt`, `reading_stops`).
-/
import Subtitles.Proofs.Session.Ingestion
import Subtitles.TextBackend
namespace Subtitles

set_option autoImplicit false

/-- The packet is for a later time than `pts`. -/
def Packet.IsLater (pts : Binary64) (p : Packet) : Prop := ∃ t, p.pts = some t ∧ pts < t

theorem Packet.isLater_iff {pts : Binary64} {p : Packet} :
    p.IsLater pts ↔ (p.pts.any fun t => decide (pts < t)) = true := by
  simp [IsLater, Option.any_eq_true]

/-! ## Where a read stops -/

/-- A read for `pts` stops at the first of these arrivals. It answers so, and leaves the others. -/
inductive StopsAt (pts : Binary64) (isOpen : Bool) : List Arrival → Bool → List Arrival → Prop
  | beyond {p : Packet} {rest : List Arrival} : p.IsLater pts → StopsAt pts isOpen (.packet p :: rest) true rest
  | stall {rest : List Arrival} : StopsAt pts isOpen (.stall :: rest) false rest
  | failure {rest : List Arrival} : StopsAt pts isOpen (.failure :: rest) true rest
  | ending {rest : List Arrival} : StopsAt pts isOpen (.ending :: rest) true rest
  /-- Nothing has arrived, and more may come only while the source is open. -/
  | nothing : StopsAt pts isOpen [] (!isOpen) []

/-- A read takes packets that are not beyond `pts`, and the arrival where it stops. -/
def Source.ReadUpTo (pts : Binary64) (before : Source) (ready : Bool) (after : Source) : Prop :=
  after.senders = before.senders ∧ ∃ (passed : List Packet) (ahead : List Arrival),
    before.arrivals = passed.map .packet ++ ahead ∧ (∀ p ∈ passed, ¬ p.IsLater pts) ∧
      StopsAt pts before.isOpen ahead ready after.arrivals

theorem reading_stops (pts : Binary64) (isOpen : Bool) (arrivals : List Arrival) :
    ∃ (passed : List Packet) (ahead : List Arrival),
      arrivals = passed.map .packet ++ ahead ∧ (∀ p ∈ passed, ¬ p.IsLater pts) ∧
      StopsAt pts isOpen ahead (reading pts isOpen arrivals).ready (reading pts isOpen arrivals).left := by
  induction arrivals with
  | nil => exact ⟨[], [], rfl, List.forall_mem_nil _, .nothing⟩
  | cons a rest ih =>
      cases a with
      | stall => exact ⟨[], _, rfl, List.forall_mem_nil _, .stall⟩
      | failure => exact ⟨[], _, rfl, List.forall_mem_nil _, .failure⟩
      | ending => exact ⟨[], _, rfl, List.forall_mem_nil _, .ending⟩
      | packet p =>
          rw [reading]
          split
          · next beyond => exact ⟨[], _, rfl, List.forall_mem_nil _, .beyond (Packet.isLater_iff.2 beyond)⟩
          · next within =>
              obtain ⟨passed, ahead, parts, none, stops⟩ := ih
              refine ⟨p :: passed, ahead, congrArg (Arrival.packet p :: ·) parts, ?_, stops⟩
              exact List.forall_mem_cons.2 ⟨fun beyond => within (Packet.isLater_iff.1 beyond), none⟩

namespace Inlet

variable {i : Inlet} {pts : Binary64}

theorem read_of_seen (seen : (i.lastRead.any fun last => decide (pts < last)) = true) :
    i.read pts = (true, [], i) :=
  if_pos (by rw [seen, Bool.or_true])

theorem read_of_unseen (undrained : i.drained = false)
    (unseen : (i.lastRead.any fun last => decide (pts < last)) = false) :
    i.source.ReadUpTo pts (i.read pts).1 (i.read pts).2.2.source := by
  have goesOn : i.read pts = _ := if_neg (by simp [undrained, unseen])
  rw [goesOn]
  exact ⟨rfl, reading_stops pts i.source.isOpen i.source.arrivals⟩

/-- What is known afterwards is the time of the packet read last. -/
theorem lastRead_read {recent : List Packet} (known : i.lastRead = recent.getLast?.bind (·.pts)) :
    (i.read pts).2.2.lastRead = (recent ++ (i.read pts).2.1).getLast?.bind (·.pts) := by
  unfold read
  split
  · simpa using known
  · show ((reading pts i.source.isOpen i.source.arrivals).taken.getLast?.map (·.pts)).getD i.lastRead = _
    rw [List.getLast?_append, known]
    cases (reading pts i.source.isOpen i.source.arrivals).taken.getLast? <;> rfl

end Inlet

/-- In a row of packets in order of time, where the last has a time and any is beyond `pts`, the
last one is. -/
theorem Packet.isLater_last {pts : Binary64} {ps : List Packet}
    (ordered : (ps.filterMap (·.pts)).Pairwise (· ≤ ·)) {p last : Packet} (member : p ∈ ps)
    (beyond : p.IsLater pts) (atEnd : ps.getLast? = some last) (timed : last.pts ≠ none) :
    last.IsLater pts := by
  obtain ⟨init, rfl⟩ := List.getLast?_eq_some_iff.1 atEnd
  obtain ⟨t, time⟩ := Option.ne_none_iff_exists'.1 timed
  obtain ⟨u, timeP, later⟩ := beyond
  rcases List.mem_append.1 member with earlier | here
  · rw [List.filterMap_append, List.filterMap_cons_some time] at ordered
    have before := (List.pairwise_append.1 ordered).2.2 u (List.mem_filterMap.2 ⟨p, earlier, timeP⟩) t
      List.mem_cons_self
    exact ⟨t, time, Binary64.lt_of_lt_of_le later before⟩
  · rw [List.mem_singleton.1 here] at timeP
    exact ⟨u, timeP, later⟩

/-! ## Reading and starting over -/

/-- A call that reads, or starts over as after a seek. -/
inductive ReadCall
  | read (pts : Binary64)
  | reset

def ReadCall.intake : ReadCall → Intake
  | .read pts => .prepare pts
  | .reset => .reset

/-- The packets that left a source. -/
def Source.takenTo (before after : Source) : List Packet :=
  before.packets.take (before.packets.length - after.packets.length)

theorem Source.takenTo_eq {before after : Source} {taken : List Packet}
    (parts : before.packets = taken ++ after.packets) : before.takenTo after = taken := by
  rw [takenTo, parts, List.length_append, Nat.add_sub_cancel, List.take_left]

variable {σ : Type} [Backend σ]

/-- A session that reads as it goes. -/
structure Trail (σ : Type) where
  session : Session σ
  /-- The packets read since it was opened or last reset. -/
  recent : List Packet := []

namespace Trail

def next (t : Trail σ) (c : ReadCall) : Trail σ :=
  let session := (t.session.receive [c.intake]).2
  match c with
  | .read _ => ⟨session, t.recent ++ t.session.stream.source.takenTo session.stream.source⟩
  | .reset => ⟨session, []⟩

def follow (t : Trail σ) (calls : List ReadCall) : Trail σ := calls.foldl next t

def opened (codec : Codec) (source : Source) (options : Options) (fresh : σ) : Trail σ :=
  ⟨.opened codec source options fresh, []⟩

/-- What holds between reads, none of which has drained the source. -/
structure Kept (fresh : σ) (source : Source) (t : Trail σ) : Prop where
  rested : t.session.Rested fresh
  undrained : t.session.stream.drained = false
  /-- Nothing was shown, so nothing is rendered ahead. -/
  unset : t.session.stream.geometry.isVoid = true
  alive : ∀ f, t.session.stream.worker ≠ .crashed f
  /-- The stream knows the time of the packet read last. -/
  remembered : t.session.stream.lastRead = t.recent.getLast?.bind (·.pts)
  recent : ∃ earlier, source.packets = earlier ++ t.recent ++ t.session.stream.source.packets

end Trail

namespace Stream

variable {s : Stream σ}

/-- While there is nothing to render for, the worker only decodes. -/
theorem settle_of_isVoid (unset : s.geometry.isVoid = true) :
    s.settle.worker = s.worker ∧ s.settle.geometry = s.geometry := by
  refine settle_induction (P := fun t => t.worker = s.worker ∧ t.geometry = s.geometry) ⟨rfl, rfl⟩ ?_
  rintro t t' ⟨worker, geometry⟩ round
  cases round with
  | decode => exact ⟨worker, geometry⟩
  | render _ _ next =>
      obtain ⟨visible, -⟩ := nextJob_spec next
      rw [geometry, unset] at visible
      cases visible

theorem geometry_enter (ps : List Packet) (s : Stream σ) : (s.enter ps).geometry = s.geometry := by
  unfold enter
  split <;> rfl

theorem geometry_prepare (room : s.pushesBack = false) (pts : Binary64) :
    (s.prepare pts).2.geometry = s.geometry := by
  have read : (s.readUntil pts).2.geometry = s.geometry := by
    cases known : s.drained || s.sawBeyond pts with
    | true => rw [readUntil, if_pos (by rw [known]; rfl)]
    | false =>
        obtain ⟨undrained, unseen⟩ := (Bool.or_eq_false_iff ..).1 known
        rw [readUntil_eq pts undrained unseen room]
        exact geometry_enter _ _
  show (if (s.readUntil pts).1 then _ else _ : Stream σ).geometry = _
  split
  · unfold request
    split <;> exact read
  · exact read

end Stream

namespace Trail

variable {fresh : σ} {source : Source} {t : Trail σ}

theorem Kept.opened (push : Backend.accepts fresh = none) (codec : Codec) (source : Source) (options : Options) :
    (Trail.opened codec source options fresh).Kept fresh source where
  rested := (Session.Alongside.opened push codec source options options).left
  undrained := rfl
  unset := rfl
  alive f := by
    show (if _ then Worker.running else Worker.absent) ≠ .crashed f
    split <;> exact nofun
  remembered := rfl
  recent := ⟨[], rfl⟩

/-- A call that reads or starts over leaves the geometry as it is, and the worker lives on. -/
theorem Kept.receive (kept : t.Kept fresh source) (c : ReadCall) :
    Session.Received fresh c.intake t.session (t.session.receive [c.intake]) ∧
      (t.session.receive [c.intake]).2.stream.geometry.isVoid = true ∧
      ∀ f, (t.session.receive [c.intake]).2.stream.worker ≠ .crashed f := by
  have turned : ∃ s : Stream σ, (t.session.receive [c.intake]).2.stream = s.settle ∧
      s.geometry = t.session.stream.geometry ∧ s.worker = t.session.stream.worker := by
    cases c with
    | read pts =>
        refine ⟨t.session.turn (.prepare pts), ?_, Stream.geometry_prepare kept.rested.stream.room pts,
          (Stream.undisturbed_prepare pts _).worker⟩
        exact congrArg (fun r : Answer × Session σ => r.2.stream) (Session.step_of_free kept.rested.free (.prepare pts))
    | reset =>
        refine ⟨t.session.turn .reset, ?_, ?_⟩
        · rw [← Session.stream_perform]
          exact congrArg (fun r : Answer × Session σ => r.2.stream) (Session.step_of_free kept.rested.free .reset)
        · obtain kept | reset := t.session.turn_reset_cases
          · rw [kept]
            exact ⟨rfl, rfl⟩
          · obtain ⟨cache, -, became⟩ := Stream.reset_cases reset
            rw [became]
            exact ⟨rfl, rfl⟩
  obtain ⟨s, became, geometry, worker⟩ := turned
  have unset : s.geometry.isVoid = true := geometry ▸ kept.unset
  obtain ⟨worker', geometry'⟩ := Stream.settle_of_isVoid unset
  have alive : ∀ f, (t.session.receive [c.intake]).2.stream.worker ≠ .crashed f := by
    rw [became, worker', worker]
    exact kept.alive
  refine ⟨kept.rested.receive_one c.intake alive, ?_, alive⟩
  rw [became, geometry', unset]

theorem Kept.next (kept : t.Kept fresh source) (c : ReadCall) : (t.next c).Kept fresh source := by
  obtain ⟨received, unset, alive⟩ := kept.receive c
  have inlet := received.brought.inlet
  obtain ⟨earlier, parts⟩ := kept.recent
  cases c with
  | read pts =>
      obtain ⟨brings, drained⟩ := (Intake.prepare pts).brings_outcome t.session.stream.inlet
      have source' : (t.session.receive [.prepare pts]).2.stream.source = _ := congrArg Inlet.source inlet
      have brings : t.session.stream.source.packets =
          (t.session.stream.inlet.read pts).2.1 ++ (t.session.receive [.prepare pts]).2.stream.source.packets := by
        rw [source']
        exact brings
      have taken := Source.takenTo_eq brings
      refine ⟨received.rested, (congrArg Inlet.drained inlet).trans (drained.trans kept.undrained), unset, alive, ?_,
        earlier, ?_⟩
      · show (t.session.receive [.prepare pts]).2.stream.lastRead =
          (t.recent ++ Source.takenTo _ (t.session.receive [.prepare pts]).2.stream.source).getLast?.bind _
        refine (congrArg Inlet.lastRead inlet).trans ?_
        rw [taken]
        exact Inlet.lastRead_read (i := t.session.stream.inlet) kept.remembered
      · show source.packets = earlier ++ (t.recent ++ Source.takenTo _ (t.session.receive [.prepare pts]).2.stream.source) ++
          (t.session.receive [.prepare pts]).2.stream.source.packets
        rw [taken, parts, brings]
        simp only [List.append_assoc]
  | reset =>
      refine ⟨received.rested, (congrArg Inlet.drained inlet).trans kept.undrained, unset, alive,
        congrArg Inlet.lastRead inlet, earlier ++ t.recent, ?_⟩
      have source' : (t.session.receive [.reset]).2.stream.source = t.session.stream.source :=
        congrArg Inlet.source inlet
      show source.packets = earlier ++ t.recent ++ [] ++ (t.session.receive [.reset]).2.stream.source.packets
      rw [source', List.append_nil, parts]

theorem Kept.follow (kept : t.Kept fresh source) (calls : List ReadCall) : (t.follow calls).Kept fresh source := by
  induction calls generalizing t with
  | nil => exact kept
  | cons c rest ih => exact ih (kept.next c)

/-- What the stream remembers as beyond a time was read. -/
theorem Kept.beyond_of_seen (kept : t.Kept fresh source) {pts : Binary64}
    (seen : (t.session.stream.lastRead.any fun last => decide (pts < last)) = true) :
    ∃ p, t.recent.getLast? = some p ∧ p.IsLater pts := by
  rw [kept.remembered] at seen
  obtain ⟨time, known, later⟩ := (Option.any_eq_true ..).1 seen
  obtain ⟨p, atEnd, timed⟩ := Option.bind_eq_some_iff.1 known
  exact ⟨p, atEnd, time, timed, of_decide_eq_true later⟩

/-- What was read beyond a time is remembered, unless the packet read last has no time. -/
theorem Kept.seen_of_beyond (kept : t.Kept fresh source)
    (ordered : (source.packets.filterMap (·.pts)).Pairwise (· ≤ ·))
    (timed : ∀ p, t.recent.getLast? = some p → p.pts ≠ none) {pts : Binary64} {p : Packet} (member : p ∈ t.recent)
    (beyond : p.IsLater pts) : (t.session.stream.lastRead.any fun last => decide (pts < last)) = true := by
  obtain ⟨earlier, parts⟩ := kept.recent
  rw [parts, List.filterMap_append, List.filterMap_append] at ordered
  have ordered := (List.pairwise_append.1 (List.pairwise_append.1 ordered).1).2.1
  obtain ⟨last, atEnd⟩ : ∃ last, t.recent.getLast? = some last :=
    ⟨_, List.getLast?_eq_getLast_of_ne_nil (List.ne_nil_of_mem member)⟩
  have lastBeyond := Packet.isLater_last ordered member beyond atEnd (timed last atEnd)
  rw [kept.remembered, atEnd]
  exact Packet.isLater_iff.1 lastBeyond

end Trail

/-- A stream that reads and starts over, with a worker or without, on a source in order of time
however packets come and stall: where a packet beyond `pts` was read since it was opened or last
reset, and the packet read last has a time, the next read for `pts` answers at once and reads
nothing. Where none was, and where the packet read last has no time, it reads on, up to the first
packet beyond `pts` or to where the source stalls, fails or ends, and answers `false` where it stalls. -/
theorem reads_remember {fresh : σ} (push : Backend.accepts fresh = none) (codec : Codec) {source : Source}
    (ordered : (source.packets.filterMap (·.pts)).Pairwise (· ≤ ·)) (options : Options) (calls : List ReadCall)
    (pts : Binary64) :
    ∃ t ready after, t = (Trail.opened codec source options fresh).follow calls ∧
      t.session.step (.prepare pts) = (.flag ready, after) ∧
      ((∃ p ∈ t.recent, p.IsLater pts) → (∀ p, t.recent.getLast? = some p → p.pts ≠ none) →
        ready = true ∧ after.stream.source = t.session.stream.source) ∧
      ((∀ p ∈ t.recent, ¬ p.IsLater pts) ∨ (∃ p, t.recent.getLast? = some p ∧ p.pts = none) →
        t.session.stream.source.ReadUpTo pts ready after.stream.source) := by
  have kept := (Trail.Kept.opened push codec source options).follow calls
  generalize (Trail.opened codec source options fresh).follow calls = t at kept
  obtain ⟨received, -⟩ := kept.receive (.read pts)
  have answer : (t.session.step (.prepare pts)).1 = .flag (t.session.stream.inlet.read pts).1 :=
    List.singleton_inj.1 (received.answers _ rfl)
  have became : (t.session.step (.prepare pts)).2.stream.source = (t.session.stream.inlet.read pts).2.2.source :=
    congrArg Inlet.source received.brought.inlet
  refine ⟨t, _, _, rfl, Prod.ext answer rfl, fun seen timed => ?_, fun unseen => ?_⟩
  · obtain ⟨p, member, beyond⟩ := seen
    rw [became, Inlet.read_of_seen (kept.seen_of_beyond ordered timed member beyond)]
    exact ⟨rfl, rfl⟩
  · rw [became]
    refine Inlet.read_of_unseen kept.undrained (Bool.eq_false_iff.2 fun seen => ?_)
    obtain ⟨last, atEnd, beyond⟩ := kept.beyond_of_seen seen
    rcases unseen with none | ⟨p, atEnd', untimed⟩
    · exact none last (List.mem_of_getLast? atEnd) beyond
    · obtain rfl := Option.some.inj (atEnd.symm.trans atEnd')
      obtain ⟨time, timed, -⟩ := beyond
      cases timed.symm.trans untimed

/-- A packet for the fifth second, one without a time, and two stalls. -/
def captionSource : Source :=
  ⟨[.packet (.ofText (some ⟨0x4014000000000000⟩) none "a"), .packet (.ofText none none "b"), .stall, .stall], 0⟩

def captionTrail : Trail TextBackend := .opened ⟨"text", #[]⟩ captionSource {} {}

/-- A read for the third second comes to the packet for the fifth, which is remembered. -/
theorem reads_remember_caption :
    Backend.accepts ({} : TextBackend) = none ∧ (captionSource.packets.filterMap (·.pts)).Pairwise (· ≤ ·) ∧
      ∃ t after, t = captionTrail.follow [.read ⟨0x4008000000000000⟩] ∧
        t.session.step (.prepare ⟨0x4008000000000000⟩) = (.flag true, after) ∧
        after.stream.source = t.session.stream.source := by
  have push : Backend.accepts ({} : TextBackend) = none := rfl
  have ordered : (captionSource.packets.filterMap (·.pts)).Pairwise (· ≤ ·) := by decide +kernel
  obtain ⟨t, ready, after, followed, stepped, remembers, -⟩ :=
    reads_remember push ⟨"text", #[]⟩ ordered {} [.read ⟨0x4008000000000000⟩] ⟨0x4008000000000000⟩
  have recent : t.recent = [.ofText (some ⟨0x4014000000000000⟩) none "a"] := by
    rw [followed]
    decide +kernel
  rw [recent] at remembers
  obtain ⟨rfl, same⟩ := remembers ⟨_, List.mem_singleton_self _, _, rfl, by decide⟩ (by simp [Packet.ofText])
  exact ⟨push, ordered, t, after, followed, stepped, same⟩

/-- Once the packet without a time was read, the one for the fifth second is forgotten: the next read
for the third goes on to the second stall. -/
theorem untimed_packet_forgets :
    (captionSource.packets.filterMap (·.pts)).Pairwise (· ≤ ·) ∧
      ∃ t after, t = captionTrail.follow [.read ⟨0x4008000000000000⟩, .read ⟨0x401c000000000000⟩] ∧
        (∃ p ∈ t.recent, p.IsLater ⟨0x4008000000000000⟩) ∧
        t.session.step (.prepare ⟨0x4008000000000000⟩) = (.flag false, after) ∧
        after.stream.source ≠ t.session.stream.source := by
  refine ⟨by decide +kernel, _, _, rfl, ?_, Prod.ext (by decide +kernel) rfl, by decide +kernel⟩
  have recent : (captionTrail.follow [.read ⟨0x4008000000000000⟩, .read ⟨0x401c000000000000⟩]).recent =
      captionSource.packets := by decide +kernel
  rw [recent]
  exact ⟨_, List.mem_cons_self, _, rfl, by decide⟩

end Subtitles
