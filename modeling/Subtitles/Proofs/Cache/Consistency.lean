/-
# Proofs.Cache.Consistency: what every operation of the cache keeps

A cache is `Consistent` with the references that its callers hold when every reference is
accounted for, and when the queue keeps to its capacity and is sorted by time. Each operation
has one lemma here. It says that the operation ends without a fault where its caller keeps the
rules, that the cache is consistent afterwards, and what became of queue and arena.
-/
import Subtitles.Proofs.Binary64
import Subtitles.Proofs.Cache.Accounts
namespace Subtitles

set_option autoImplicit false

namespace Cache

/-- The two entries are live, and the first is for an earlier time. -/
def Before (c : Cache) (h k : Handle) : Prop :=
  ∃ p q, c.pts? h = some p ∧ c.pts? k = some q ∧ p < q

structure Consistent (c : Cache) (held : List Handle) : Prop where
  accounted : c.arena.Accounted (c.queue ++ held)
  bounded : c.queue.length ≤ c.capacity
  sorted : c.queue.Pairwise c.Before

/-- Whether an entry is for a time before `pts`. -/
def isBefore (c : Cache) (pts : Binary64) (h : Handle) : Bool :=
  (c.pts? h).any fun p => decide (p < pts)

variable {c b : Cache} {held roots : List Handle} {h : Handle} {e : Entry}

theorem pts?_eq (found : c.entry? h = some e) : c.pts? h = some e.pts := by
  simp [pts?, found]

theorem isRendered_eq (found : c.entry? h = some e) : c.isRendered h = e.isRendered := by
  simp [isRendered, found]

/-! ## Giving references back -/

theorem dropWhile_congr {α : Type} {p q : α → Bool} {l : List α} (same : ∀ x ∈ l, p x = q x) :
    l.dropWhile p = l.dropWhile q := by
  induction l with
  | nil => rfl
  | cons x rest ih =>
      simp only [List.dropWhile_cons, same x List.mem_cons_self,
        ih fun y member => same y (List.mem_cons_of_mem _ member)]

/-- A root that is left keeps its entry with its time. -/
theorem pts?_of_leaves (leaves : c.arena.Leaves b.arena) (acc : b.arena.Accounted roots)
    (root : h ∈ roots) : b.pts? h = c.pts? h := by
  obtain ⟨f, found⟩ := acc.live_of_root root
  obtain ⟨e, wasThere, pts, -⟩ := leaves h f found
  rw [pts?_eq found, pts?_eq wasThere, pts]

/-- One reference given back ends without a fault. -/
theorem release_accounted (c : Cache) (h : Handle) (roots : List Handle)
    (acc : c.arena.Accounted (h :: roots)) :
    ∃ b, c.release h = .ok b ∧ b.arena.Accounted roots ∧ c.arena.Leaves b.arena ∧
      b.queue = c.queue ∧ b.capacity = c.capacity := by
  fun_induction Cache.release c h with
  | case1 c h gone =>
      obtain ⟨e, found⟩ := acc.live_of_root List.mem_cons_self
      exact absurd (found.symm.trans gone) (by simp)
  | case2 c h e found uncounted =>
      have := acc.positive found
      omega
  | case3 c h e found last owner link ih =>
      have dismissed := acc.dismiss found last
      rw [link] at dismissed
      obtain ⟨b, released, accounted, leaves, queue, capacity⟩ := ih dismissed
      exact ⟨b, released, accounted, (Arena.leaves_remove found).trans leaves, queue, capacity⟩
  | case4 c h e found last own =>
      have dismissed := acc.dismiss found last
      refine ⟨_, rfl, ?_, Arena.leaves_remove found, rfl, rfl⟩
      split at dismissed
      · next owner link => exact absurd link (own owner)
      · exact dismissed
  | case5 c h e found n several =>
      exact ⟨_, rfl, acc.lower found several, Arena.leaves_put found _ rfl rfl, rfl, rfl⟩

/-- Pruning drops the entries of the queue up to the first that is not before `pts`. -/
theorem pruneFrom_accounted (c : Cache) (pts : Binary64) (queue held : List Handle)
    (acc : c.arena.Accounted (queue ++ held)) :
    ∃ b, c.pruneFrom pts queue = .ok b ∧ b.queue = queue.dropWhile (c.isBefore pts) ∧
      b.arena.Accounted (b.queue ++ held) ∧ c.arena.Leaves b.arena ∧ b.capacity = c.capacity := by
  induction queue generalizing c with
  | nil => exact ⟨_, rfl, rfl, acc, .refl _, rfl⟩
  | cons h rest ih =>
      obtain ⟨e, found⟩ := acc.live_of_root (h := h) (by simp)
      have time : c.pts? h = some e.pts := pts?_eq found
      by_cases early : e.pts < pts
      · obtain ⟨d, released, accounted, leaves, -, capacity⟩ := release_accounted c h (rest ++ held) acc
        obtain ⟨b, pruned, queue, accounted', leaves', capacity'⟩ :=
          ih { d with counters.pruned := d.counters.pruned + 1 } accounted
        have sameTimes : ∀ k ∈ rest, d.pts? k = c.pts? k := fun k member =>
          pts?_of_leaves leaves accounted (List.mem_append_left _ member)
        refine ⟨b, ?_, ?_, accounted', leaves.trans leaves', capacity'.trans capacity⟩
        · simp only [pruneFrom, time, early, if_true, released]
          exact pruned
        · rw [queue, List.dropWhile_cons_of_pos (by simp [isBefore, time, early])]
          refine dropWhile_congr fun k member => ?_
          show (d.pts? k).any _ = (c.pts? k).any _
          rw [sameTimes k member]
      · refine ⟨{ c with queue := h :: rest }, ?_, ?_, acc, .refl _, rfl⟩
        · simp [pruneFrom, time, early]
        · rw [List.dropWhile_cons_of_neg (by simp [isBefore, time, early])]

theorem flushFrom_accounted (c : Cache) (queue held : List Handle)
    (acc : c.arena.Accounted (queue ++ held)) :
    ∃ b, c.flushFrom queue = .ok b ∧ b.arena.Accounted held ∧ c.arena.Leaves b.arena ∧
      b.queue = c.queue ∧ b.capacity = c.capacity := by
  induction queue generalizing c with
  | nil => exact ⟨c, rfl, acc, .refl _, rfl, rfl⟩
  | cons h rest ih =>
      obtain ⟨d, released, accounted, leaves, queue, capacity⟩ :=
        release_accounted { c with counters.flushed := c.counters.flushed + 1 } h (rest ++ held) acc
      obtain ⟨b, flushed, accounted', leaves', queue', capacity'⟩ := ih d accounted
      refine ⟨b, ?_, accounted', leaves.trans leaves', queue'.trans queue, capacity'.trans capacity⟩
      simp only [flushFrom, released]
      exact flushed

/-! ## Operations on a consistent cache -/

namespace Consistent

theorem ofCapacity (n : Nat) : (Cache.ofCapacity n).Consistent [] :=
  ⟨.empty, Nat.zero_le n, .nil⟩

/-- Only the number of references held on each handle matters. -/
theorem of_perm {held' : List Handle} (con : c.Consistent held) (perm : held.Perm held') :
    c.Consistent held' := by
  refine ⟨con.accounted.of_count fun h => ?_, con.bounded, con.sorted⟩
  rw [List.count_append, List.count_append, perm.count_eq]

theorem live_of_held (con : c.Consistent held) (member : h ∈ held) : ∃ e, c.entry? h = some e :=
  con.accounted.live_of_root (List.mem_append_right _ member)

theorem live_of_queued (con : c.Consistent held) (member : h ∈ c.queue) : ∃ e, c.entry? h = some e :=
  con.accounted.live_of_root (List.mem_append_left _ member)

theorem nodup_queue (con : c.Consistent held) : c.queue.Nodup := by
  refine con.sorted.imp ?_
  rintro h k ⟨p, q, first, second, before⟩ same
  rw [same, second] at first
  exact Binary64.lt_irrefl p (by rwa [Option.some.inj first] at before)

/-- No two entries are queued for the same time. -/
theorem apart {k : Handle} {p q : Binary64} (con : c.Consistent held) (memberH : h ∈ c.queue)
    (memberK : k ∈ c.queue) (other : h ≠ k) (timeH : c.pts? h = some p) (timeK : c.pts? k = some q) :
    ¬ p.Same q := by
  have ordered : c.Before h k ∨ c.Before k h :=
    List.Pairwise.forall_of_forall_of_flip (R := fun h k => h ≠ k → c.Before h k ∨ c.Before k h)
      (fun _ _ distinct => absurd rfl distinct) (con.sorted.imp fun before _ => .inl before)
      (con.sorted.imp fun before _ => .inr before) memberH memberK other
  intro same
  rcases ordered with ⟨p', q', first, second, before⟩ | ⟨q', p', second, first, before⟩
  · rw [timeH] at first
    rw [timeK] at second
    rw [← Option.some.inj first, ← Option.some.inj second] at before
    exact Binary64.not_lt_of_same same before
  · rw [timeH] at first
    rw [timeK] at second
    rw [← Option.some.inj first, ← Option.some.inj second] at before
    exact Binary64.not_lt_of_same same.symm before

/-- What comes after the entry queued last comes after every entry queued. -/
theorem before_of_later {pts : Binary64} (con : c.Consistent held)
    (later : (c.queue.getLast?.all fun last => (c.pts? last).any fun p => decide (p < pts)) = true)
    (member : h ∈ c.queue) : ∃ p, c.pts? h = some p ∧ p < pts := by
  obtain ⟨front, last, queue⟩ : ∃ front last, c.queue = front ++ [last] :=
    ⟨_, _, (List.dropLast_concat_getLast (List.ne_nil_of_mem member)).symm⟩
  have sorted := con.sorted
  rw [queue] at later member sorted
  obtain ⟨q, timeLast, beforeLast⟩ : ∃ q, c.pts? last = some q ∧ q < pts := by
    simpa [Option.any_eq_true] using later
  rcases List.mem_append.1 member with earlier | atEnd
  · obtain ⟨p, q', timeH, timeLast', before⟩ :=
      (List.pairwise_append.1 sorted).2.2 h earlier last (List.mem_singleton_self _)
    rw [timeLast] at timeLast'
    rw [← Option.some.inj timeLast'] at before
    exact ⟨p, timeH, Binary64.lt_trans before beforeLast⟩
  · exact ⟨q, by rw [List.mem_singleton.1 atEnd, timeLast], beforeLast⟩

/-- A cache with what is left of the arena and a part of the queue. -/
theorem of_leaves {held' : List Handle} (con : c.Consistent held)
    (accounted : b.arena.Accounted (b.queue ++ held')) (leaves : c.arena.Leaves b.arena)
    (part : b.queue.Sublist c.queue) (capacity : b.capacity = c.capacity) :
    b.Consistent held' where
  accounted := accounted
  bounded := by
    rw [capacity]
    exact Nat.le_trans part.length_le con.bounded
  sorted := by
    have times : ∀ k ∈ b.queue, b.pts? k = c.pts? k := fun k member =>
      pts?_of_leaves leaves accounted (List.mem_append_left _ member)
    refine (con.sorted.sublist part).imp_of_mem fun {h k} memberH memberK before => ?_
    obtain ⟨p, q, first, second, lt⟩ := before
    exact ⟨p, q, (times h memberH).trans first, (times k memberK).trans second, lt⟩

/-- A cache whose arena has another entry in one place, for the same time. -/
theorem of_put {held' : List Handle} {f : Entry} (con : c.Consistent held)
    (found : c.entry? h = some e) (pts : e.pts = f.pts)
    (accounted : (c.arena.put h f).Accounted (c.queue ++ held')) : (c.put h f).Consistent held' where
  accounted := accounted
  bounded := con.bounded
  sorted := by
    have times : ∀ k, (c.put h f).pts? k = c.pts? k := by
      intro k
      show ((c.arena.put h f).get? k).map _ = (c.arena.get? k).map _
      rw [Arena.get?_put found]
      split
      · next same => rw [same, show c.arena.get? h = some e from found, Option.map_some, Option.map_some, pts]
      · rfl
    refine con.sorted.imp ?_
    rintro h k ⟨p, q, first, second, lt⟩
    exact ⟨p, q, (times h).trans first, (times k).trans second, lt⟩

theorem release (con : c.Consistent (h :: held)) :
    ∃ b, c.release h = .ok b ∧ b.Consistent held ∧ c.arena.Leaves b.arena ∧ b.queue = c.queue := by
  have acc : c.arena.Accounted (h :: (c.queue ++ held)) :=
    con.accounted.of_count fun k => (List.perm_middle (a := h)).count_eq k
  obtain ⟨b, released, accounted, leaves, queue, capacity⟩ := release_accounted c h _ acc
  refine ⟨b, released, con.of_leaves ?_ leaves ?_ capacity, leaves, queue⟩
  · rwa [queue]
  · exact queue ▸ .refl _

theorem addReference (con : c.Consistent held) (found : c.entry? h = some e) :
    c.addReference h = .ok (c.put h { e with references := e.references + 1 }) ∧
      (c.put h { e with references := e.references + 1 }).Consistent (h :: held) := by
  refine ⟨by simp [Cache.addReference, found], con.of_put found ?_ ?_⟩
  · rfl
  · exact (con.accounted.retain found).of_count fun k => (List.perm_middle (a := h)).symm.count_eq k

theorem flush (con : c.Consistent held) :
    ∃ b, c.flush = .ok b ∧ b.Consistent held ∧ c.arena.Leaves b.arena ∧ b.queue = [] := by
  obtain ⟨b, flushed, accounted, leaves, queue, capacity⟩ :=
    flushFrom_accounted { c with queue := [] } c.queue held con.accounted
  have empty : b.queue = [] := queue
  refine ⟨b, flushed, con.of_leaves ?_ leaves ?_ capacity, leaves, empty⟩
  · rwa [empty]
  · rw [empty]; exact List.nil_sublist _

theorem prune (con : c.Consistent held) (pts : Binary64) :
    ∃ b, c.prune pts = .ok b ∧ b.Consistent held ∧ c.arena.Leaves b.arena ∧
      b.queue = c.queue.dropWhile (c.isBefore pts) := by
  obtain ⟨b, pruned, queue, accounted, leaves, capacity⟩ :=
    pruneFrom_accounted c pts c.queue held con.accounted
  refine ⟨b, pruned, con.of_leaves accounted leaves ?_ capacity, leaves, queue⟩
  rw [queue]
  exact List.dropWhile_sublist _

theorem checkOut_of_prune {pts : Binary64} (pruned : c.prune pts = .ok b) :
    c.checkOut pts = match b.queue with
      | [] => .ok (none, b)
      | h :: _ =>
        if ((b.pts? h).any fun p => decide (p.Same pts)) = true then (b.addReference h).map (some h, ·)
        else .ok (none, b) := by
  unfold Cache.checkOut
  rw [pruned]
  rfl

/-- Where the first entry is neither before a time nor for it, all others are after it. -/
theorem misses_of_front {rest : List Handle} {p pts : Binary64} (con : c.Consistent held)
    (front : c.queue = h :: rest) (time : c.pts? h = some p) (notEarly : ¬ p < pts) (other : ¬ p.Same pts) :
    ∀ k ∈ c.queue, ∀ q, c.pts? k = some q → ¬ q.Same pts := by
  intro k member q timeK same
  rw [front] at member
  rcases List.mem_cons.1 member with rfl | later
  · rw [time] at timeK
    exact other (Option.some.inj timeK ▸ same)
  · have sorted := con.sorted
    rw [front, List.pairwise_cons] at sorted
    obtain ⟨p', q', first, second, before⟩ := sorted.1 k later
    rw [time] at first
    rw [timeK] at second
    rw [← Option.some.inj first, ← Option.some.inj second] at before
    exact notEarly (Binary64.lt_of_lt_of_same before same)

/-- A look-up that prunes: what it hits is the first entry left, for that time, and held once
more; and what it misses is not queued. -/
theorem checkOut (con : c.Consistent held) (pts : Binary64) :
    ∃ hit b, c.checkOut pts = .ok (hit, b) ∧ b.Consistent (hit.toList ++ held) ∧
      c.arena.Leaves b.arena ∧ b.queue = c.queue.dropWhile (c.isBefore pts) ∧
      (∀ h, hit = some h → b.queue.head? = some h ∧ ∃ p, b.pts? h = some p ∧ p.Same pts) ∧
      (hit = none → ∀ h ∈ b.queue, ∀ p, b.pts? h = some p → ¬ p.Same pts) := by
  obtain ⟨d, pruned, conD, leaves, queue⟩ := con.prune pts
  cases front : d.queue with
  | nil =>
      refine ⟨none, d, ?_, conD, leaves, queue, nofun, ?_⟩
      · rw [checkOut_of_prune pruned, front]
      · intro _ h member
        rw [front] at member; simp at member
  | cons h rest =>
      have queuedH : h ∈ d.queue := by rw [front]; exact List.mem_cons_self
      obtain ⟨e, found⟩ := conD.live_of_queued queuedH
      have time : d.pts? h = some e.pts := pts?_eq found
      by_cases same : e.pts.Same pts
      · obtain ⟨added, conB⟩ := conD.addReference found
        refine ⟨some h, _, ?_, conB, leaves.trans (Arena.leaves_put found _ rfl rfl), queue, ?_, nofun⟩
        · have hit : ((d.pts? h).any fun p => decide (p.Same pts)) = true := by simp [time, same]
          rw [checkOut_of_prune pruned, front]
          simp only [hit, if_true, added]
          rfl
        · intro k hit
          obtain rfl := Option.some.inj hit
          refine ⟨congrArg List.head? front, e.pts, ?_, same⟩
          exact pts?_eq (e := { e with references := e.references + 1 }) (Arena.get?_put_self found)
      · have notEarly : ¬ e.pts < pts := by
          have kept := List.head?_dropWhile_not (c.isBefore pts) c.queue
          rw [← queue, front] at kept
          have timeC := pts?_of_leaves leaves conD.accounted (List.mem_append_left _ queuedH)
          simpa [isBefore, ← timeC, time] using kept
        refine ⟨none, d, ?_, conD, leaves, queue, nofun, fun _ => conD.misses_of_front front time notEarly same⟩
        have miss : ¬ ((d.pts? h).any fun p => decide (p.Same pts)) = true := by simp [time, same]
        rw [checkOut_of_prune pruned, front]
        exact if_neg miss

/-- A request is counted as refused, or queues the entry it inserts behind all others. -/
theorem request_cases (c : Cache) (pts : Binary64) :
    (∃ refusedFull refusedLate, c.request pts =
        (none, { c with counters := { c.counters with refusedFull, refusedLate } })) ∨
      (c.queue.length < c.capacity ∧
        (c.queue.getLast?.all fun last => (c.pts? last).any fun p => decide (p < pts)) = true ∧
        c.request pts = (some (c.arena.insert ⟨pts, 1, .pending⟩).1,
          { c with
            queue := c.queue ++ [(c.arena.insert ⟨pts, 1, .pending⟩).1]
            arena := (c.arena.insert ⟨pts, 1, .pending⟩).2
            counters.requested := c.counters.requested + 1 })) := by
  by_cases full : c.capacity ≤ c.queue.length
  · refine .inl ⟨c.counters.refusedFull + 1, c.counters.refusedLate, ?_⟩
    simp [Cache.request, full]
  · by_cases later : (c.queue.getLast?.all fun last => (c.pts? last).any fun p => decide (p < pts)) = true
    · refine .inr ⟨Nat.lt_of_not_le full, later, ?_⟩
      simp [Cache.request, full, later]
    · refine .inl ⟨c.counters.refusedFull, c.counters.refusedLate + 1, ?_⟩
      simp [Cache.request, full, later]

/-- A fresh entry queued behind all others, for a later time. -/
theorem append {arena : Arena Entry} {counters : Counters} {new : Handle} {pts : Binary64}
    (con : c.Consistent held) (room : c.queue.length < c.capacity)
    (later : (c.queue.getLast?.all fun last => (c.pts? last).any fun p => decide (p < pts)) = true)
    (fresh : c.entry? new = none) (accounted : arena.Accounted (new :: (c.queue ++ held)))
    (look : ∀ k, arena.get? k = if k = new then some ⟨pts, 1, .pending⟩ else c.entry? k) :
    Consistent { c with queue := c.queue ++ [new], arena, counters } held := by
  have times : ∀ k ∈ c.queue, (arena.get? k).map (·.pts) = c.pts? k := by
    intro k member
    obtain ⟨e, found⟩ := con.live_of_queued member
    rw [look k, if_neg, Cache.pts?]
    rintro rfl
    exact absurd (found.symm.trans fresh) nofun
  refine ⟨accounted.of_count fun k => ?_, ?_, ?_⟩
  · simp only [List.append_assoc, List.singleton_append]
    exact (List.perm_middle (a := new)).symm.count_eq k
  · simp only [List.length_append, List.length_singleton]
    omega
  · refine List.pairwise_append.2 ⟨?_, List.pairwise_singleton _ _, ?_⟩
    · refine con.sorted.imp_of_mem fun {k l} memberK memberL before => ?_
      obtain ⟨p, q, first, second, lt⟩ := before
      exact ⟨p, q, (times k memberK).trans first, (times l memberL).trans second, lt⟩
    · intro k member l atEnd
      rw [List.mem_singleton.1 atEnd]
      obtain ⟨p, timeK, before⟩ := con.before_of_later later member
      refine ⟨p, pts, (times k member).trans timeK, ?_, before⟩
      exact congrArg (Option.map _) ((look new).trans (if_pos rfl))

/-- A request is refused, or queues a fresh entry behind all others. -/
theorem request (con : c.Consistent held) (pts : Binary64) :
    (c.request pts).2.Consistent held ∧
      (((c.request pts).1 = none ∧ (c.request pts).2.arena = c.arena ∧
          (c.request pts).2.queue = c.queue) ∨
        ∃ h, (c.request pts).1 = some h ∧ c.entry? h = none ∧
          (c.request pts).2.queue = c.queue ++ [h] ∧
          ∀ k, Cache.entry? (c.request pts).2 k = if k = h then some ⟨pts, 1, .pending⟩ else c.entry? k) := by
  obtain ⟨_, _, refused⟩ | ⟨room, later, accepted⟩ := request_cases c pts
  · rw [refused]
    exact ⟨⟨con.accounted, con.bounded, con.sorted⟩, .inl ⟨rfl, rfl, rfl⟩⟩
  · have listed := con.accounted.listed
    have fresh := Arena.get?_insert_fresh listed ⟨pts, 1, .pending⟩
    have self := Arena.get?_insert_self listed ⟨pts, 1, .pending⟩
    have others := fun k => Arena.get?_insert_ne listed ⟨pts, 1, .pending⟩ (k := k)
    have accounted := con.accounted.enter pts
    rw [accepted]
    revert fresh self others accounted
    obtain ⟨h, arena⟩ := c.arena.insert ⟨pts, 1, .pending⟩
    intro fresh self others accounted
    have look : ∀ k, arena.get? k = if k = h then some ⟨pts, 1, .pending⟩ else c.entry? k := by
      intro k
      split
      · next same => rw [same]; exact self
      · next other => exact others k other
    exact ⟨con.append room later fresh accounted look, .inr ⟨h, rfl, fresh, rfl, look⟩⟩

/-- A render published for a pending entry. -/
theorem publish (con : c.Consistent held) (found : c.entry? h = some e)
    (pending : e.isRendered = false) (frame : Frame) :
    ∃ b, c.publish h frame = .ok b ∧ b.Consistent held ∧ b.queue = c.queue ∧
      b.arena = c.arena.put h { e with storage := .owned frame } := by
  have accounted : (c.arena.put h { e with storage := .owned frame }).Accounted (c.queue ++ held) :=
    con.accounted.render found pending nofun nofun (by simp)
  refine ⟨{ c.put h { e with storage := .owned frame } with
    counters.storagesMade := c.counters.storagesMade + 1 }, ?_, ?_, rfl, rfl⟩
  · simp [Cache.publish, found, pending]
  · have con' := con.of_put (f := { e with storage := .owned frame }) found rfl accounted
    exact ⟨con'.accounted, con'.bounded, con'.sorted⟩

/-- A pending entry made to show what another shows; the reference held on that one goes to it. -/
theorem share {owner : Handle} {o : Entry} (con : c.Consistent (owner :: held))
    (found : c.entry? h = some e) (pending : e.isRendered = false)
    (there : c.entry? owner = some o) (rendered : o.isRendered = true) :
    ∃ b, c.share h owner = .ok b ∧ b.Consistent held ∧ b.queue = c.queue ∧
      b.arena = c.arena.put h { e with storage := .shared owner } := by
  have accounted : (c.arena.put h { e with storage := .shared owner }).Accounted (c.queue ++ held) := by
    refine con.accounted.render found pending nofun (fun k link => ?_) fun k => ?_
    · cases link
      exact ⟨o, there, rendered⟩
    · rw [(List.perm_middle (a := owner)).count_eq k, List.count_cons]
      by_cases same : owner = k <;> simp [same]
  refine ⟨{ c.put h { e with storage := .shared owner } with
    counters.shared := c.counters.shared + 1 }, ?_, ?_, rfl, rfl⟩
  · simp [Cache.share, found, pending, isRendered_eq there, rendered]
  · have con' := con.of_put (f := { e with storage := .shared owner }) found rfl accounted
    exact ⟨con'.accounted, con'.bounded, con'.sorted⟩

end Consistent

end Cache
end Subtitles
