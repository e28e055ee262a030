/-
# Proofs.Cache.Bounds: what is bounded in a cache, and what is not

The queue keeps to its capacity: its entries are live, each is queued once, and each is for an
earlier time than the next (`queue_bounded`).

The arena does not. An entry that has left the queue lives on while a later one shares from it, and
each link of sharing may hold one entry back, but no more (`Consistent.live_le`). A worker that
finds nothing changed links every entry to the one before it, so playback grows the chain by one
with every frame (`PlayedTo.next`), and all of it stays live behind a single queued entry
(`arena_grows_with_links`).
-/
import Subtitles.Proofs.Cache.Balance
import Subtitles.Proofs.Cache.Exchange
namespace Subtitles

set_option autoImplicit false

/-! ## The queue -/

/-- In every reached ledger the queue keeps to its capacity, names each of its entries once, all of
them live, and goes from earlier times to later ones. -/
theorem queue_bounded {n : Nat} {l : Ledger} (reached : Reached n l) :
    l.cache.queue.length ≤ n ∧ l.cache.queue.Nodup ∧ (∀ h ∈ l.cache.queue, l.IsLive h) ∧
      l.cache.queue.Pairwise fun h k =>
        ∃ p q, l.cache.pts? h = some p ∧ l.cache.pts? k = some q ∧ p < q := by
  have con := reached.consistent
  have room := con.bounded
  rw [reached.balanced.capacity] at room
  exact ⟨room, con.nodup_queue, fun h member => con.live_of_queued member, con.sorted⟩

/-- What was no number and the second zero are refused; the others fill the cache. -/
def cornerLedger : Ledger where
  cache := [⟨0xfff0000000000000⟩, .nan, ⟨0x8000000000000000⟩, .zero, .infinity].foldl
    (fun c pts => (c.request pts).2) (.ofCapacity 3)
  held := []

theorem Reached.requests {n : Nat} {l : Ledger} (reached : Reached n l) (times : List Binary64) :
    Reached n { l with cache := times.foldl (fun c pts => (c.request pts).2) l.cache } := by
  induction times generalizing l with
  | nil => exact reached
  | cons pts rest ih => exact ih (.move (m := .request pts) reached trivial rfl)

theorem reached_cornerLedger : Reached 3 cornerLedger := Reached.start.requests _

theorem queue_bounded_cornerLedger :
    Reached 3 cornerLedger ∧ cornerLedger.cache.queue = [⟨0, 0⟩, ⟨1, 0⟩, ⟨2, 0⟩] ∧
      cornerLedger.cache.queue.length ≤ 3 ∧ cornerLedger.cache.queue.Nodup ∧
      (∀ h ∈ cornerLedger.cache.queue, cornerLedger.IsLive h) ∧
      cornerLedger.cache.queue.Pairwise fun h k =>
        ∃ p q, cornerLedger.cache.pts? h = some p ∧ cornerLedger.cache.pts? k = some q ∧ p < q :=
  ⟨reached_cornerLedger, by decide +kernel, queue_bounded reached_cornerLedger⟩

/-! ## The arena -/

namespace Cache

variable {c b : Cache} {held : List Handle} {h owner p : Handle} {frame shown : Frame} {path : List Handle}
  {job : Job} {n : Nat}

/-- What lives is a root's own, or held back by a link of sharing. -/
theorem Consistent.live_le (con : c.Consistent held) :
    c.arena.live ≤ c.queue.length + held.length + c.arena.count Entry.isSharer := by
  have unlinked := unlinked_le con.accounted
  have parts := c.arena.count_add_count_not Entry.isSharer
  rw [List.length_append] at unlinked
  omega

theorem Balanced.begin (balanced : c.Balanced n) (begun : c.begin job = .ok b) : b.Balanced n :=
  begin_induction begun balanced fun _ _ _ balanced' added => balanced'.addReference added

theorem Balanced.finish {share : Bool} (balanced : c.Balanced n)
    (finished : c.finish job share frame = .ok b) : b.Balanced n :=
  finish_induction finished balanced (fun _ _ _ _ balanced' published => balanced'.publish published)
    (fun _ _ _ _ balanced' shared => balanced'.share shared)
    fun _ _ _ balanced' released => balanced'.release released

/-! ## A chain that grows -/

/-- A request for a time after all that is queued is taken where there is room. -/
theorem Consistent.request_later (con : c.Consistent held) (room : c.queue.length < c.capacity) {pts : Binary64}
    (later : ∀ h ∈ c.queue, c.isBefore pts h = true) :
    (c.request pts).2.Consistent held ∧ ∃ h, c.entry? h = none ∧ (c.request pts).2.queue = c.queue ++ [h] ∧
      ∀ k, Cache.entry? (c.request pts).2 k = if k = h then some ⟨pts, 1, .pending⟩ else c.entry? k := by
  obtain ⟨con', ⟨refused, -⟩ | ⟨h, -, became⟩⟩ := con.request pts
  · have isLater : (c.queue.getLast?.all fun last => (c.pts? last).any fun p => decide (p < pts)) = true := by
      cases last : c.queue.getLast? with
      | none => rfl
      | some k => exact later k (List.mem_of_getLast? last)
    simp [Cache.request, Nat.not_le.2 room, isLater] at refused
  · exact ⟨con', h, became⟩

/-- The entry is for `pts`, and so many links of sharing lead on from it. -/
def Trail (c : Cache) (h : Handle) (pts : Binary64) (links : Nat) : Prop :=
  c.pts? h = some pts ∧ ∃ owner frame path, c.Leads owner frame h path ∧ path.length = links + 1

namespace Trail

variable {pts q : Binary64} {links : Nat}

theorem live (trail : c.Trail h pts links) : ∃ e, c.entry? h = some e ∧ e.pts = pts :=
  Option.map_eq_some_iff.1 trail.1

theorem isRendered (trail : c.Trail h pts links) : c.isRendered h = true := by
  obtain ⟨-, owner, frame, path, leads, -⟩ := trail
  cases leads with
  | owned found own =>
      rw [isRendered_eq found, Entry.isRendered, own]
      rfl
  | shared found link _ =>
      rw [isRendered_eq found, Entry.isRendered, link]
      rfl

/-- What renders nothing changes no trail. -/
theorem keep (trail : c.Trail h pts links) (keeps : Arena.Keeps none c.arena b.arena)
    (con : b.Consistent held) (live : ∃ f, b.entry? h = some f) : b.Trail h pts links := by
  obtain ⟨e, found, time⟩ := trail.live
  obtain ⟨-, owner, frame, path, leads, long⟩ := trail
  obtain ⟨f, present⟩ := live
  refine ⟨?_, owner, frame, path, leads.keep keeps nofun con.accounted ⟨f, present⟩, long⟩
  rw [pts?_eq present, (keeps h e f found present).1, time]

/-- A render shared with the predecessor makes the trail one link longer. -/
theorem finish (trail : c.Trail p pts links) (before : job.predecessor = some p)
    (con : c.Consistent (job.references ++ held))
    (pending : ∃ e, c.entry? job.entry = some e ∧ e.pts = q ∧ e.isRendered = false)
    (queued : job.entry ∈ c.queue) (frame : Frame) :
    ∃ b, c.finish job true frame = .ok b ∧ b.Consistent held ∧ b.queue = c.queue ∧
      Arena.Keeps (some job.entry) c.arena b.arena ∧ b.Trail job.entry q (links + 1) := by
  obtain ⟨e, found, time, waits⟩ := pending
  obtain ⟨-, owner, shown, path, leads, long⟩ := id trail
  obtain ⟨b, finished, con', queue, keeps, stored⟩ := con.finish_stored ⟨e, found, waits⟩
    (fun k same => by rw [Option.some.inj (same.symm.trans before), trail.isRendered]) true frame
  obtain ⟨f, present⟩ := con'.live_of_queued (queue ▸ queued)
  have link : f.storage = .shared p := by
    have kind := stored f present
    rwa [before] at kind
  refine ⟨b, finished, con', queue, keeps, ?_, owner, shown, job.entry :: path, ?_, ?_⟩
  · rw [pts?_eq present, (keeps _ e f found present).1, time]
  · exact leads.hang keeps ⟨e, found, waits⟩ con' present link
  · rw [List.length_cons, long]

end Trail

end Cache

namespace Exchange

variable {x : Exchange} {n : Nat}

theorem Reached.balanced (reached : Reached n x) : x.cache.Balanced n := by
  induction reached with
  | start => exact .ofCapacity n
  | @turn x x' t before _ applied ih =>
      have listed := before.sound.consistent.accounted.listed
      cases t with
      | select =>
          simp only [apply] at applied
          split at applied
          · obtain rfl := Except.ok.inj applied
            exact ih
          · obtain ⟨b, begun, rfl⟩ := of_map_eq_ok applied
            exact ih.begin begun
      | publish share frame =>
          simp only [apply] at applied
          split at applied
          · obtain rfl := Except.ok.inj applied
            exact ih
          · obtain ⟨b, finished, rfl⟩ := of_map_eq_ok applied
            exact ih.finish finished
      | request pts =>
          obtain rfl := Except.ok.inj applied
          exact ih.request listed pts
      | lookUp pts =>
          obtain ⟨⟨hit, b⟩, checked, rfl⟩ := of_map_eq_ok applied
          exact ih.checkOut checked
      | giveBack =>
          simp only [apply] at applied
          split at applied
          · obtain rfl := Except.ok.inj applied
            exact ih
          · obtain ⟨b, released, rfl⟩ := of_map_eq_ok applied
            exact ih.release released
      | flush =>
          obtain ⟨b, flushed, rfl⟩ := of_map_eq_ok applied
          exact ih.flush flushed

/-! ## Playback of a picture that does not change -/

/-- All is played up to the one entry that is queued, and nothing is under way. -/
structure PlayedTo (x : Exchange) (h : Handle) (pts : Binary64) (links : Nat) : Prop where
  job : x.job = none
  hit : x.hit = none
  queue : x.cache.queue = [h]
  trail : x.cache.Trail h pts links

variable {p q : Binary64} {links : Nat} {h new : Handle}

theorem PlayedTo.request (played : x.PlayedTo h p links) (reached : Reached n x) (room : 1 < n)
    (later : p < q) :
    ∃ c new, Reached n { x with cache := c } ∧ c.queue = [h, new] ∧ c.Trail h p links ∧
      c.entry? new = some ⟨q, 1, .pending⟩ := by
  obtain ⟨-, -, queue, trail⟩ := played
  have con := reached.sound.consistent
  have vacant : x.cache.queue.length < x.cache.capacity := by
    rw [queue, reached.balanced.capacity]
    exact room
  have isLater : ∀ k ∈ x.cache.queue, x.cache.isBefore q k = true := by
    intro k member
    rw [queue, List.mem_singleton] at member
    simp [member, Cache.isBefore, trail.1, later]
  obtain ⟨con', new, -, queue', look⟩ := con.request_later vacant isLater
  rw [queue] at queue'
  refine ⟨_, new, .turn (t := .request q) reached trivial rfl, queue', ?_, (look new).trans (if_pos rfl)⟩
  exact trail.keep (Arena.keeps_request con q) con' (con'.live_of_queued (queue' ▸ List.mem_cons_self))

/-- The worker renders the second of two entries, and finds nothing changed since the first. -/
theorem Reached.render (reached : Reached n x) (idle : x.job = none) (queue : x.cache.queue = [h, new])
    (trail : x.cache.Trail h p links) (pending : x.cache.entry? new = some ⟨q, 1, .pending⟩) :
    ∃ c, Reached n { x with cache := c } ∧ c.queue = [h, new] ∧ c.pts? h = some p ∧
      c.Trail new q (links + 1) := by
  have con := reached.sound.consistent
  have upTo : x.cache.RenderedUpTo [h] [new] := by
    refine ⟨queue, ?_, ?_⟩
    · intro k member
      rw [List.mem_singleton.1 member, trail.isRendered]
    · intro k member
      rw [List.mem_singleton.1 member, Cache.isRendered_eq pending]
      rfl
  have search : x.cache.firstPending = some ⟨new, some h⟩ := upTo.firstPending con
  have queuedH : h ∈ x.cache.queue := queue ▸ List.mem_cons_self
  have queuedNew : new ∈ x.cache.queue := queue ▸ List.mem_cons_of_mem h List.mem_cons_self
  have live : ∃ e, x.cache.entry? (Job.mk new (some h)).entry = some e := ⟨_, pending⟩
  obtain ⟨c₁, begun, con₁, leaves, -, queue₁⟩ := con.begin live <| by
    rintro _ ⟨⟩
    exact con.live_of_queued queuedH
  have selected : Reached n { x with cache := c₁, job := some ⟨new, some h⟩ } :=
    .turn (t := .select) reached idle (by simp only [apply, search, begun]; rfl)
  have trail₁ := trail.keep leaves.keeps con₁ (con₁.live_of_queued (queue₁ ▸ queuedH))
  obtain ⟨e, found⟩ := con₁.live_of_queued (h := new) (queue₁ ▸ queuedNew)
  obtain ⟨time, storage⟩ := leaves.keeps new _ e pending found
  have kept : e.storage = .pending := storage (by simp)
  have pending₁ : e.isRendered = false := by simp [Entry.isRendered, kept]
  obtain ⟨c₂, finished, con₂, queue₂, keeps, trail₂⟩ :=
    trail₁.finish rfl con₁ ⟨e, found, time, pending₁⟩ (queue₁ ▸ queuedNew) (.blank 0)
  refine ⟨c₂, ?_, queue₂.trans (queue₁.trans queue), ?_, trail₂⟩
  · have published : Reached n { x with cache := c₂, job := none } :=
      .turn (t := .publish true (.blank 0)) selected rfl (by simp only [apply, finished]; rfl)
    rwa [← idle] at published
  · obtain ⟨f, there, timeH⟩ := trail₁.live
    obtain ⟨g, present⟩ := con₂.live_of_queued (h := h) (queue₂ ▸ queue₁ ▸ queuedH)
    rw [Cache.pts?_eq present, (keeps h f g there present).1, timeH]

/-- The consumer plays the second of two entries. -/
theorem Reached.play (reached : Reached n x) (idle : x.job = none) (noHit : x.hit = none)
    (queue : x.cache.queue = [h, new]) (time : x.cache.pts? h = some p) (later : p < q)
    (trail : x.cache.Trail new q links) : ∃ x', Reached n x' ∧ x'.PlayedTo new q links := by
  obtain ⟨hit, c₁, checked, con₁, leaves₁, queue₁, found, missed⟩ := reached.sound.consistent.checkOut q
  have left : c₁.queue = [new] := by
    have dropped : x.cache.isBefore q h = true := by simp [Cache.isBefore, time, later]
    have stays : x.cache.isBefore q new = false := by simp [Cache.isBefore, trail.1, Binary64.lt_irrefl]
    rw [queue₁, queue, List.dropWhile_cons_of_pos dropped, List.dropWhile_cons_of_neg (by simp [stays])]
  have queued₁ : new ∈ c₁.queue := left ▸ List.mem_cons_self
  have trail₁ := trail.keep leaves₁.keeps con₁ (con₁.live_of_queued queued₁)
  obtain rfl : hit = some new := by
    cases hit with
    | none => exact absurd (Binary64.same_self_iff.2 later.1.2) (missed rfl new queued₁ q trail₁.1)
    | some k =>
        have front := (found k rfl).1
        rw [left] at front
        exact front.symm
  have out : Reached n { x with cache := c₁, hit := some new } :=
    .turn (t := .lookUp q) reached noHit (by simp only [apply, checked]; rfl)
  obtain ⟨c₂, released, con₂, leaves₂, queue₂⟩ := Cache.Consistent.release con₁
  have back : Reached n { x with cache := c₂, hit := none } :=
    .turn (t := .giveBack) out rfl (by simp only [apply, released]; rfl)
  exact ⟨_, back, idle, rfl, queue₂.trans left,
    trail₁.keep leaves₂.keeps con₂ (con₂.live_of_queued (queue₂ ▸ queued₁))⟩

/-- One more frame, and one more link. -/
theorem PlayedTo.next (played : x.PlayedTo h p links) (reached : Reached n x) (room : 1 < n) (later : p < q) :
    ∃ x' new, Reached n x' ∧ x'.PlayedTo new q (links + 1) := by
  obtain ⟨c₁, new, reached₁, queue₁, trail₁, pending⟩ := played.request reached room later
  obtain ⟨c₂, reached₂, queue₂, time, trail₂⟩ := reached₁.render played.job queue₁ trail₁ pending
  obtain ⟨x', reached₃, played'⟩ := reached₂.play played.job played.hit queue₂ time later trail₂
  exact ⟨x', new, reached₃, played'⟩

/-- The first frame, rendered. -/
def firstFrame (n : Nat) : Exchange where
  cache := {
    capacity := n
    queue := [⟨0, 0⟩]
    arena.slots := #[⟨0, some ⟨.zero, 1, .owned (.blank 1)⟩⟩]
    counters := { requested := 1, storagesMade := 1 } }

theorem reached_firstFrame (room : 0 < n) : Reached n (firstFrame n) := by
  obtain ⟨m, rfl⟩ := Nat.exists_eq_add_of_lt room
  have requested : Reached (0 + m + 1) _ := .turn (t := .request .zero) .start trivial rfl
  have selected : Reached (0 + m + 1) _ := .turn (t := .select) requested rfl rfl
  exact .turn (t := .publish false (.blank 1)) selected rfl (by with_unfolding_all rfl)

/-- Playback of so many frames after the first. -/
theorem exists_playedTo (room : 1 < n) (links : Nat) (few : links ≤ Binary64.infinite) :
    ∃ x h, Reached n x ∧ x.PlayedTo h (.pack false links) links := by
  induction links with
  | zero =>
      have trail : (firstFrame n).cache.Trail ⟨0, 0⟩ .zero 0 :=
        ⟨rfl, ⟨0, 0⟩, .blank 1, [⟨0, 0⟩], .owned rfl rfl, rfl⟩
      exact ⟨firstFrame n, ⟨0, 0⟩, reached_firstFrame (by omega), rfl, rfl, rfl, trail⟩
  | succ links ih =>
      obtain ⟨x, h, reached, played⟩ := ih (by omega)
      obtain ⟨x', new, reached', played'⟩ :=
        played.next reached room (Binary64.pack_lt_pack (Nat.lt_succ_self links) few)
      exact ⟨x', new, reached', played'⟩

/-- Then all that is live is on the chain of the one queued entry. -/
theorem PlayedTo.live_eq (played : x.PlayedTo h p links) (reached : Reached n x) :
    x.cache.arena.live = links + 1 := by
  obtain ⟨job, hit, queue, -, owner, frame, path, leads, long⟩ := played
  have con := reached.sound.consistent
  have onChain : ∀ k e, x.cache.arena.get? k = some e → true = true → k ∈ path := by
    intro k e found _
    obtain ⟨root, named, leadsTo⟩ := con.rooted ⟨e, found⟩
    rw [queue, held, job, hit] at named
    obtain rfl : root = h := by simpa using named
    exact leadsTo.mem_path leads
  refine Nat.le_antisymm ?_ ?_
  · rw [x.cache.arena.live_eq_count, ← long]
    exact Arena.count_le_length onChain
  · rw [← long]
    exact leads.length_le_live con.accounted

end Exchange

/-- In every order of turns of a worker and a consumer, what is live is no more than the queue may
hold and the two hold, and one more for each link of sharing; and what has no link is no more than
the queue may hold and the two hold. The links have no bound but the number of slots: playback of a
picture that does not change comes to a single queued entry, with nothing held and all frames live, so
any number of live entries is reached there. -/
theorem arena_grows_with_links (n : Nat) :
    (∀ x, Exchange.Reached n x →
      x.cache.arena.live ≤ n + x.held.length + x.cache.arena.count Entry.isSharer ∧
        x.cache.arena.count (fun e => !e.isSharer) ≤ n + x.held.length) ∧
    (1 < n → ∀ entries, 0 < entries → entries < 2 ^ 32 → ∃ x, Exchange.Reached n x ∧ x.held = [] ∧
      x.cache.queue.length = 1 ∧ x.cache.arena.live = entries) := by
  refine ⟨fun x reached => ?_, fun room entries some few => ?_⟩
  · have con := reached.sound.consistent
    have queued := con.bounded
    rw [reached.balanced.capacity] at queued
    have live := con.live_le
    have unlinked := Cache.unlinked_le con.accounted
    rw [List.length_append] at unlinked
    omega
  · obtain ⟨links, rfl⟩ := Nat.exists_eq_succ_of_ne_zero (Nat.ne_of_gt some)
    have fewer : links ≤ Binary64.infinite := Nat.le_of_lt (Nat.lt_trans (Nat.lt_of_succ_lt few) (by decide))
    obtain ⟨x, h, reached, played⟩ := Exchange.exists_playedTo room links fewer
    refine ⟨x, reached, ?_, ?_, played.live_eq reached⟩
    · rw [Exchange.held, played.job, played.hit]
      rfl
    · rw [played.queue]
      rfl

/-- With room for two, a thousand entries live. -/
theorem arena_grows_with_links_thousand :
    Exchange.Reached 2 Exchange.midway ∧ Exchange.midway.cache.arena.live ≤
        2 + Exchange.midway.held.length + Exchange.midway.cache.arena.count Entry.isSharer ∧
      ∃ x, Exchange.Reached 2 x ∧ x.held = [] ∧ x.cache.queue.length = 1 ∧ x.cache.arena.live = 1000 := by
  obtain ⟨bounded, grows⟩ := arena_grows_with_links 2
  exact ⟨Exchange.reached_midway, (bounded _ Exchange.reached_midway).1,
    grows (by decide) 1000 (by decide) (by decide)⟩

/-- Two frames with room for two. The second is queued and shares from the first, which has left the queue. -/
def Exchange.twoFrames : Exchange where
  cache := {
    capacity := 2
    queue := [⟨1, 0⟩]
    arena.slots := #[⟨0, some ⟨.zero, 1, .owned (.blank 1)⟩⟩, ⟨0, some ⟨.one, 1, .shared ⟨0, 0⟩⟩⟩]
    counters := { requested := 2, pruned := 1, storagesMade := 1, shared := 1 } }

theorem Exchange.reached_twoFrames : Reached 2 twoFrames := by
  have first : Reached 2 (firstFrame 2) := reached_firstFrame (by decide)
  have requested : Reached 2 _ := .turn (t := .request .one) first trivial rfl
  have selected : Reached 2 _ := .turn (t := .select) requested rfl rfl
  have shared : Reached 2 _ := .turn (t := .publish true (.blank 0)) selected rfl (by with_unfolding_all rfl)
  have second : Reached 2 _ := .turn (t := .lookUp .one) shared rfl (by with_unfolding_all rfl)
  exact .turn (t := .giveBack) second rfl (by with_unfolding_all rfl)

/-- One frame more, which shares from the second. Two of the three have left the queue. -/
def Exchange.threeFrames : Exchange where
  cache := {
    capacity := 2
    queue := [⟨2, 0⟩]
    arena.slots := #[⟨0, some ⟨.zero, 1, .owned (.blank 1)⟩⟩, ⟨0, some ⟨.one, 1, .shared ⟨0, 0⟩⟩⟩,
      ⟨0, some ⟨⟨0x4000000000000000⟩, 1, .shared ⟨1, 0⟩⟩⟩]
    counters := { requested := 3, pruned := 2, storagesMade := 1, shared := 2 } }

theorem Exchange.reached_threeFrames : Reached 2 threeFrames := by
  have requested : Reached 2 _ := .turn (t := .request ⟨0x4000000000000000⟩) reached_twoFrames trivial rfl
  have selected : Reached 2 _ := .turn (t := .select) requested rfl rfl
  have shared : Reached 2 _ := .turn (t := .publish true (.blank 0)) selected rfl (by with_unfolding_all rfl)
  have third : Reached 2 _ := .turn (t := .lookUp ⟨0x4000000000000000⟩) shared rfl (by with_unfolding_all rfl)
  exact .turn (t := .giveBack) third rfl (by with_unfolding_all rfl)

theorem live_exceeds_room :
    Exchange.Reached 2 Exchange.threeFrames ∧
      ¬ Exchange.threeFrames.cache.arena.live ≤ Exchange.threeFrames.cache.capacity + Exchange.threeFrames.held.length :=
  ⟨Exchange.reached_threeFrames, by decide⟩

end Subtitles
