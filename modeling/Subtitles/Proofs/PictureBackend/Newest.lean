/-
# Proofs.PictureBackend.Newest: the picture on the screen

`onScreen` says what should be seen at a time, of all pictures ever decoded: the last to arrive of
those that have started, unless it has stopped. The backend forgets pictures and moves their stops,
both for good. What it forgets is over at a time that was rendered, and a stop that it moves becomes
the start of a later picture (`Keeps`). So where pictures arrive in the order of their starts and times
are rendered in order, it shows what it should (`shows_newest`).
-/
import Subtitles.PictureBackend
import Subtitles.Proofs.Bisect
import Subtitles.Proofs.Binary64
import Subtitles.Proofs.Calls
namespace Subtitles

set_option autoImplicit false

/-- Where every item satisfies the test, the point is at the end, wherever the seam is. -/
theorem RingBuffer.partitionPoint_eq_size {α : Type} {test : α → Bool} {r : RingBuffer α}
    (every : ∀ x ∈ r.items, test x = true) : r.partitionPoint test = r.size := by
  have inside : r.seam ≤ r.items.length := Nat.min_le_left ..
  unfold partitionPoint
  split
  · rw [bisect_eq_length fun x member => every x (List.mem_of_mem_drop member), List.length_drop, size]
    omega
  · next past =>
      have last : r.items.length ≤ r.seam := by
        refine Nat.le_of_not_lt fun short => past ?_
        rw [List.getElem?_eq_getElem short]
        exact every _ (List.getElem_mem short)
      rw [List.take_of_length_le last, bisect_eq_length every, size]

/-- The frame shows the pixels of a part, wherever it stands and however large, or nothing. -/
def Frame.Depicts (f : Frame) : Option Part → Prop
  | some part => f.format = .alpha8 ∧ ∃ x y displayWidth displayHeight,
      f.parts = [{ part with x, y, displayWidth, displayHeight }]
  | none => f.format = .empty ∧ f.parts = []

namespace PendingPicture

variable {a c q : PendingPicture} {arrived later : List PendingPicture} {pts : Binary64}

def hasStarted (pts : Binary64) (p : PendingPicture) : Bool := decide (p.start ≤ pts)

def hasStopped (pts : Binary64) (p : PendingPicture) : Bool := p.stop.any fun stop => decide (stop ≤ pts)

/-- What is on the screen at a time, given all pictures in the order of their arrival. -/
def onScreen (arrived : List PendingPicture) (pts : Binary64) : Option Part :=
  match (arrived.filter (hasStarted pts)).getLast? with
  | some p => if p.hasStopped pts then none else p.part
  | none => none

/-- A picture that arrived later has started, or this one has stopped. -/
def OverAt (arrived : List PendingPicture) (pts : Binary64) (p : PendingPicture) : Prop :=
  (∃ c ∈ arrived, p.id < c.id ∧ c.start ≤ pts) ∨ p.hasStopped pts = true

theorem hasStopped_mono {r : Binary64} (stopped : a.hasStopped r = true) (le : r ≤ pts) : a.hasStopped pts = true := by
  obtain ⟨stop, known, before⟩ := (Option.any_eq_true ..).1 stopped
  exact (Option.any_eq_true ..).2 ⟨stop, known, decide_eq_true (Binary64.le_trans (of_decide_eq_true before) le)⟩

theorem OverAt.mono {r : Binary64} (ended : OverAt arrived r a) (le : r ≤ pts) : OverAt arrived pts a := by
  rcases ended with ⟨c, member, after, started⟩ | stopped
  · exact .inl ⟨c, member, after, Binary64.le_trans started le⟩
  · exact .inr (hasStopped_mono stopped le)

theorem OverAt.append (ended : OverAt arrived pts a) : OverAt (arrived ++ later) pts a :=
  ended.imp_left fun ⟨c, member, found⟩ => ⟨c, List.mem_append_left _ member, found⟩

/-- The picture started last is the one that has started and none that arrived later has. -/
theorem getLast?_started_iff (ids : arrived.Pairwise (·.id < ·.id)) :
    (arrived.filter (hasStarted pts)).getLast? = some a ↔
      a ∈ arrived ∧ a.start ≤ pts ∧ ∀ c ∈ arrived, a.id < c.id → ¬ c.start ≤ pts := by
  have started : ∀ c, c ∈ arrived.filter (hasStarted pts) ↔ c ∈ arrived ∧ c.start ≤ pts := by simp [hasStarted]
  have newest : ∀ b, (arrived.filter (hasStarted pts)).getLast? = some b →
      ∀ c ∈ arrived, c.start ≤ pts → c = b ∨ c.id < b.id := by
    intro b last c member reached
    obtain ⟨older, split⟩ := List.getLast?_eq_some_iff.1 last
    have there : c ∈ older ++ [b] := split ▸ (started c).2 ⟨member, reached⟩
    have apart := List.pairwise_append.1 (split ▸ ids.sublist List.filter_sublist)
    rcases List.mem_append.1 there with before | here
    · exact .inr (apart.2.2 c before b List.mem_cons_self)
    · exact .inl (List.mem_singleton.1 here)
  constructor
  · intro last
    obtain ⟨member, reached⟩ := (started a).1 (List.mem_of_getLast? last)
    refine ⟨member, reached, fun c there after started => ?_⟩
    rcases newest a last c there started with rfl | before
    · exact Nat.lt_irrefl _ after
    · exact Nat.lt_asymm after before
  · rintro ⟨member, reached, none⟩
    cases last : (arrived.filter (hasStarted pts)).getLast? with
    | none =>
        rw [List.getLast?_eq_none_iff] at last
        exact absurd ((started a).2 ⟨member, reached⟩) (last ▸ List.not_mem_nil)
    | some b =>
        obtain ⟨there, started⟩ := (started b).1 (List.mem_of_getLast? last)
        rcases newest b last a member reached with rfl | before
        · rfl
        · exact absurd started (none b there before)

/-- Where all that have started are over, the screen is clear. -/
theorem onScreen_eq_none (ids : arrived.Pairwise (·.id < ·.id))
    (ended : ∀ a ∈ arrived, a.start ≤ pts → OverAt arrived pts a) : onScreen arrived pts = none := by
  unfold onScreen
  split
  · next a last =>
      obtain ⟨member, started, newest⟩ := (getLast?_started_iff ids).1 last
      rcases ended a member started with ⟨c, there, after, reached⟩ | stopped
      · exact absurd reached (newest c there after)
      · rw [if_pos stopped]
  · rfl

/-- A picture as it is kept: it stops when it should, or earlier, where a later picture starts. -/
structure Clipped (arrived : List PendingPicture) (a q : PendingPicture) : Prop where
  id : q.id = a.id
  start : q.start = a.start
  part : q.part = a.part
  stop : q.stop = a.stop ∨ ∃ c ∈ arrived, a.id < c.id ∧ q.stop = some c.start ∧
    a.stop.all (fun stop => decide (c.start < stop)) = true

theorem Clipped.append (clipped : Clipped arrived a q) : Clipped (arrived ++ later) a q :=
  ⟨clipped.id, clipped.start, clipped.part, clipped.stop.imp_right fun ⟨c, member, found⟩ =>
    ⟨c, List.mem_append_left _ member, found⟩⟩

/-- What is kept stops only when the picture is over. -/
theorem Clipped.overAt (clipped : Clipped arrived a q) (stopped : q.hasStopped pts = true) :
    OverAt arrived pts a := by
  rcases clipped.stop with same | ⟨c, member, after, stop, -⟩
  · exact .inr (by rwa [hasStopped, ← same])
  · rw [hasStopped, stop] at stopped
    exact .inl ⟨c, member, after, of_decide_eq_true stopped⟩

theorem Clipped.hasStopped_eq (clipped : Clipped arrived a q) (going : q.hasStopped pts = false) :
    a.hasStopped pts = false := by
  rcases clipped.stop with same | ⟨c, -, -, stop, before⟩
  · rwa [hasStopped, ← same]
  · rw [hasStopped, stop] at going
    cases ends : a.stop with
    | none => simp [hasStopped, ends]
    | some e =>
        rw [ends] at before
        have before : c.start < e := of_decide_eq_true before
        have ahead : ¬ c.start ≤ pts := of_decide_eq_false going
        rw [hasStopped, ends]
        exact decide_eq_false fun reached =>
          ahead ⟨⟨before.1.1, reached.1.2⟩, Int.le_trans (Int.le_of_lt before.2) reached.2⟩

/-- A picture that starts later moves the stop of one that would last longer. -/
theorem Clipped.cutAt (clipped : Clipped arrived a q) (after : a.id < c.id) :
    Clipped (arrived ++ [c]) a (PictureBackend.cutAt c.start q) := by
  unfold PictureBackend.cutAt
  split
  · next cut =>
      refine ⟨clipped.id, clipped.start, clipped.part, .inr ⟨c, by simp, after, rfl, ?_⟩⟩
      rcases clipped.stop with same | ⟨k, -, -, stop, before⟩
      · rw [← same]
        exact cut.2
      · rw [stop] at cut
        have sooner : c.start < k.start := of_decide_eq_true cut.2
        simp only [Option.all_eq_true, decide_eq_true_eq] at before ⊢
        exact fun e ends => Binary64.lt_trans sooner (before e ends)
  · exact clipped.append

end PendingPicture

namespace PictureBackend

open LoggedBackend (Served)
open PendingPicture

variable {b : PictureBackend} {arrived : List PendingPicture} {rendered : List Binary64} {pts : Binary64}
  {p : Packet}

/-- The pictures with that of one more packet. -/
def accept (arrived : List PendingPicture) (p : Packet) : List PendingPicture :=
  match readable? p with
  | none => arrived
  | some (start, part) => arrived ++ [⟨arrived.length, start, p.duration.map (start + ·), part⟩]

/-- The pictures that packets come to, numbered as they arrive. -/
def accepted (ps : List Packet) : List PendingPicture := ps.foldl accept []

theorem prefix_accept (arrived : List PendingPicture) (p : Packet) : arrived <+: accept arrived p := by
  unfold accept
  split
  · exact List.prefix_rfl
  · exact List.prefix_append ..

/-! ## The pictures that are over -/

/-- The pictures dropped at a time are over at it, and the one that is first then is not. -/
theorem exists_over (pts : Binary64) {queue : List PendingPicture} (ids : queue.Pairwise (·.id < ·.id)) :
    ∃ spent rest, queue = spent ++ rest ∧ queue.drop (overCount pts queue) = rest ∧
      (∀ q ∈ spent, OverAt queue pts q) ∧
      ∀ q later, rest = q :: later →
        later.head?.any (hasStarted pts) = false ∧ q.hasStopped pts = false := by
  induction queue with
  | nil => exact ⟨[], [], rfl, rfl, List.forall_mem_nil _, fun q later first => absurd first nofun⟩
  | cons q queue ih =>
      rw [overCount]
      split
      · next done =>
          obtain ⟨spent, rest, split, dropped, past, front⟩ := ih ids.of_cons
          refine ⟨q :: spent, rest, congrArg (q :: ·) split, dropped, List.forall_mem_cons.2 ⟨?_, ?_⟩, front⟩
          · rcases Bool.or_eq_true_iff.1 done with next | stopped
            · obtain ⟨c, first, started⟩ := (Option.any_eq_true ..).1 next
              have member : c ∈ queue := List.mem_of_head? first
              exact .inl ⟨c, List.mem_cons_of_mem _ member, List.rel_of_pairwise_cons ids member,
                of_decide_eq_true started⟩
            · exact .inr stopped
          · exact fun k member => (past k member).imp_left fun ⟨c, there, found⟩ =>
              ⟨c, List.mem_cons_of_mem _ there, found⟩
      · next going =>
          refine ⟨[], q :: queue, rfl, rfl, List.forall_mem_nil _, fun k later first => ?_⟩
          obtain ⟨rfl, rfl⟩ := List.cons.inj first
          exact (Bool.or_eq_false_iff ..).1 (Bool.eq_false_iff.2 going)

/-! ## What is kept -/

/-- Of the pictures that arrived, those are kept that are not over at a time that was rendered; and
they are the last that arrived. -/
structure Keeps (b : PictureBackend) (arrived : List PendingPicture) (rendered : List Binary64) : Prop where
  next : b.nextId = arrived.length
  below : ∀ a ∈ arrived, a.id < arrived.length
  ids : arrived.Pairwise (·.id < ·.id)
  sorted : b.pictures.items.Pairwise fun p q => p.id < q.id ∧ p.start ≤ q.start
  kept : ∀ q ∈ b.pictures.items, ∃ a ∈ arrived, Clipped arrived a q
  gone : ∀ a ∈ arrived, (∃ q ∈ b.pictures.items, Clipped arrived a q) ∨
    (∀ q ∈ b.pictures.items, a.id < q.id) ∧ ∃ r ∈ rendered, OverAt arrived r a

theorem Keeps.congr {b' : PictureBackend} (keeps : b.Keeps arrived rendered) (next : b'.nextId = b.nextId)
    (pictures : b'.pictures = b.pictures) : b'.Keeps arrived rendered := by
  obtain ⟨number, below, ids, sorted, kept, gone⟩ := keeps
  rw [← pictures] at sorted kept gone
  exact ⟨next.trans number, below, ids, sorted, kept, gone⟩

theorem cutAt_id (start : Binary64) (q : PendingPicture) : (cutAt start q).id = q.id := by
  unfold cutAt
  split <;> rfl

theorem cutAt_start (start : Binary64) (q : PendingPicture) : (cutAt start q).start = q.start := by
  unfold cutAt
  split <;> rfl

/-- A picture that starts no earlier than all that are kept goes behind them. -/
theorem decode_last {start : Binary64} {part : Option Part} (read : readable? p = some (start, part))
    (last : ∀ q ∈ b.pictures.items, q.start ≤ start) :
    (b.decode p).nextId = b.nextId + 1 ∧
      (b.decode p).pictures.items =
        b.pictures.items.map (cutAt start) ++ [⟨b.nextId, start, p.duration.map (start + ·), part⟩] := by
  have point : (b.pictures.map (cutAt start)).partitionPoint (fun q => decide (q.start ≤ start)) =
      (b.pictures.items.map (cutAt start)).length := by
    refine RingBuffer.partitionPoint_eq_size fun x member => ?_
    obtain ⟨q, there, rfl⟩ := List.mem_map.1 member
    rw [cutAt_start]
    exact decide_eq_true (last q there)
  unfold PictureBackend.decode
  rw [read]
  dsimp only
  rw [point]
  exact ⟨rfl, List.insertIdx_length_self⟩

/-- One more picture, the last to arrive and the last to start, which ends those before it. -/
theorem Keeps.append {b' : PictureBackend} {c : PendingPicture} (keeps : b.Keeps arrived rendered)
    (number : c.id = arrived.length) (last : ∀ a ∈ arrived, a.start ≤ c.start)
    (next : b'.nextId = b.nextId + 1)
    (items : b'.pictures.items = b.pictures.items.map (cutAt c.start) ++ [c]) :
    b'.Keeps (arrived ++ [c]) rendered := by
  have latest : ∀ a ∈ arrived, a.id < c.id := fun a member => number ▸ keeps.below a member
  have cut : ∀ a ∈ arrived, ∀ q, Clipped arrived a q → Clipped (arrived ++ [c]) a (cutAt c.start q) :=
    fun a member q clipped => clipped.cutAt (latest a member)
  have itself : Clipped (arrived ++ [c]) c c := ⟨rfl, rfl, rfl, .inl rfl⟩
  refine ⟨?_, ?_, ?_, ?_, ?_, ?_⟩
  · rw [next, keeps.next, List.length_append, List.length_singleton]
  · refine List.forall_mem_append.2 ⟨fun a member => ?_, by simp [number]⟩
    have below := keeps.below a member
    rw [List.length_append]
    omega
  · exact List.pairwise_append.2 ⟨keeps.ids, List.pairwise_singleton .., by simpa using latest⟩
  · rw [items]
    refine List.pairwise_append.2
      ⟨List.pairwise_map.2 (by simpa only [cutAt_id, cutAt_start] using keeps.sorted), List.pairwise_singleton .., ?_⟩
    simp only [List.forall_mem_map, List.forall_mem_singleton, cutAt_id, cutAt_start]
    intro q member
    obtain ⟨a, there, clipped⟩ := keeps.kept q member
    rw [clipped.id, clipped.start]
    exact ⟨latest a there, last a there⟩
  · rw [items]
    refine List.forall_mem_append.2 ⟨List.forall_mem_map.2 fun q member => ?_, ?_⟩
    · obtain ⟨a, there, clipped⟩ := keeps.kept q member
      exact ⟨a, List.mem_append_left _ there, cut a there q clipped⟩
    · exact List.forall_mem_singleton.2 ⟨c, by simp, itself⟩
  · rw [items]
    refine List.forall_mem_append.2 ⟨fun a member => ?_, ?_⟩
    · rcases keeps.gone a member with ⟨q, there, clipped⟩ | ⟨before, r, drawn, ended⟩
      · exact .inl ⟨cutAt c.start q, List.mem_append_left _ (List.mem_map_of_mem there), cut a member q clipped⟩
      · refine .inr ⟨List.forall_mem_append.2 ⟨List.forall_mem_map.2 fun q there => ?_, ?_⟩, r, drawn, ended.append⟩
        · rw [cutAt_id]
          exact before q there
        · exact List.forall_mem_singleton.2 (latest a member)
    · exact List.forall_mem_singleton.2 (.inl ⟨c, by simp, itself⟩)

theorem Keeps.decode (keeps : b.Keeps arrived rendered)
    (starts : (accept arrived p).Pairwise fun a c => a.start ≤ c.start) :
    (b.decode p).Keeps (accept arrived p) rendered := by
  unfold accept at starts ⊢
  cases read : readable? p with
  | none =>
      have same : b.decode p = b := by rw [PictureBackend.decode, read]
      rw [same]
      exact keeps
  | some content =>
      obtain ⟨start, part⟩ := content
      rw [read] at starts
      dsimp only at starts ⊢
      have last : ∀ a ∈ arrived, a.start ≤ start := fun a member =>
        (List.pairwise_append.1 starts).2.2 a member _ List.mem_cons_self
      obtain ⟨next, items⟩ := decode_last read fun q member => by
        obtain ⟨a, there, clipped⟩ := keeps.kept q member
        rw [clipped.start]
        exact last a there
      rw [keeps.next] at items
      exact keeps.append rfl last next items

/-- At a time that is rendered some pictures are dropped, all of them over. -/
theorem Keeps.drop {b' : PictureBackend} (keeps : b.Keeps arrived rendered) (next : b'.nextId = b.nextId)
    (items : b'.pictures.items = b.pictures.items.drop (overCount pts b.pictures.items)) :
    b'.Keeps arrived (rendered ++ [pts]) ∧
      ∀ q later, b'.pictures.items = q :: later →
        later.head?.any (hasStarted pts) = false ∧ q.hasStopped pts = false := by
  obtain ⟨spent, rest, split, dropped, past, front⟩ :=
    exists_over pts (keeps.sorted.imp fun {p q} both => both.1)
  rw [dropped] at items
  have kept := keeps.kept
  have gone := keeps.gone
  have sorted := keeps.sorted
  rw [split] at kept gone sorted past
  obtain ⟨-, inRest, across⟩ := List.pairwise_append.1 sorted
  have overAt : ∀ q ∈ spent, ∀ a ∈ arrived, Clipped arrived a q → OverAt arrived pts a := by
    intro q member a there clipped
    rcases past q member with ⟨c, queued, after, started⟩ | stopped
    · obtain ⟨k, from_, clipped'⟩ := kept c queued
      rw [clipped.id, clipped'.id] at after
      rw [clipped'.start] at started
      exact .inl ⟨k, from_, after, started⟩
    · exact clipped.overAt stopped
  refine ⟨⟨next.trans keeps.next, keeps.below, keeps.ids, items ▸ inRest, ?_, ?_⟩, items ▸ front⟩
  · rw [items]
    exact fun q member => kept q (List.mem_append_right _ member)
  · rw [items]
    intro a member
    rcases gone a member with ⟨q, queued, clipped⟩ | ⟨before, r, drawn, done⟩
    · rcases List.mem_append.1 queued with left | right
      · refine .inr ⟨fun k there => ?_, pts, by simp, overAt q left a member clipped⟩
        rw [← clipped.id]
        exact (across q left k there).1
      · exact .inl ⟨q, right, clipped⟩
    · exact .inr ⟨fun k there => before k (List.mem_append_right _ there), r, List.mem_append_left _ drawn, done⟩

/-- What is left after that is what should be seen. -/
theorem Keeps.shown_eq (keeps : b.Keeps arrived rendered) (times : ∀ r ∈ rendered, r ≤ pts ∨ r = pts)
    (front : ∀ q later, b.pictures.items = q :: later →
      later.head?.any (hasStarted pts) = false ∧ q.hasStopped pts = false) :
    (shown? pts b.pictures.items).map (·.2) = onScreen arrived pts := by
  have gone : ∀ a ∈ arrived, (∃ q ∈ b.pictures.items, Clipped arrived a q) ∨
      (∀ q ∈ b.pictures.items, a.id < q.id) ∧ OverAt arrived pts a := by
    intro a member
    refine (keeps.gone a member).imp_right fun ⟨before, r, drawn, ended⟩ => ⟨before, ?_⟩
    rcases times r drawn with le | rfl
    · exact ended.mono le
    · exact ended
  have sorted := keeps.sorted
  have kept := keeps.kept
  cases queue : b.pictures.items with
  | nil =>
      rw [queue] at gone
      refine (onScreen_eq_none keeps.ids fun a member _ => ?_).symm
      exact ((gone a member).resolve_left fun ⟨q, there, _⟩ => List.not_mem_nil there).2
  | cons q later =>
      rw [queue] at gone sorted kept
      obtain ⟨unstarted, going⟩ := front q later queue
      by_cases started : q.start ≤ pts
      · obtain ⟨a, member, clipped⟩ := kept q List.mem_cons_self
        -- Nothing behind it has started, and what was dropped arrived before it.
        have newest : ∀ c ∈ arrived, a.id < c.id → ¬ c.start ≤ pts := by
          intro c there after reached
          rw [← clipped.id] at after
          rcases gone c there with ⟨k, queued, clipped'⟩ | ⟨before, -⟩
          · rcases List.mem_cons.1 queued with rfl | behind
            · exact absurd clipped'.id (Nat.ne_of_lt after)
            · cases later with
              | nil => exact absurd behind List.not_mem_nil
              | cons first rest =>
                  have ahead : ¬ first.start ≤ pts := of_decide_eq_false unstarted
                  rw [← clipped'.start] at reached
                  rcases List.mem_cons.1 behind with rfl | behind
                  · exact ahead reached
                  · exact ahead (Binary64.le_trans (List.rel_of_pairwise_cons sorted.of_cons behind).2 reached)
          · exact Nat.lt_asymm after (before q List.mem_cons_self)
        have last := (getLast?_started_iff keeps.ids).2 ⟨member, clipped.start ▸ started, newest⟩
        rw [onScreen, last]
        dsimp only
        rw [clipped.hasStopped_eq going, if_neg Bool.false_ne_true, ← clipped.part]
        obtain ⟨id, start, stop, part⟩ := q
        cases part with
        | none => rfl
        | some part => simp only [shown?, if_pos started, Option.map_some]
      · have clear : shown? pts (q :: later) = none := by
          obtain ⟨id, start, stop, part⟩ := q
          cases part with
          | none => rfl
          | some part => exact if_neg started
        rw [clear, Option.map_none]
        refine (onScreen_eq_none keeps.ids fun a member reached => ?_).symm
        rcases gone a member with ⟨k, queued, clipped⟩ | ⟨-, ended⟩
        · rw [← clipped.start] at reached
          rcases List.mem_cons.1 queued with rfl | behind
          · exact absurd reached started
          · exact absurd (Binary64.le_trans (List.rel_of_pairwise_cons sorted behind).2 reached) started
        · exact ended

theorem noteKey_frame (b : PictureBackend) (k : PictureKey) :
    (b.noteKey k).2.nextId = b.nextId ∧ (b.noteKey k).2.pictures = b.pictures := by
  unfold noteKey
  split <;> exact ⟨rfl, rfl⟩

theorem render_frame (b : PictureBackend) (g : Geometry) (pts : Binary64) :
    (b.render g pts).2.nextId = b.nextId ∧
      (b.render g pts).2.pictures = b.pictures.drop (overCount pts b.pictures.items) ∧
      (g.isVoid = false → (b.render g pts).1.Depicts
        ((shown? pts (b.render g pts).2.pictures.items).map (·.2))) := by
  cases shown : shown? pts (b.pictures.drop (overCount pts b.pictures.items)).items with
  | none =>
      simp only [PictureBackend.render, shown, noteKey_frame]
      exact ⟨trivial, trivial, fun _ => ⟨rfl, rfl⟩⟩
  | some found =>
      simp only [PictureBackend.render, shown, noteKey_frame]
      refine ⟨trivial, trivial, fun filled => ?_⟩
      rw [filled, if_neg Bool.false_ne_true]
      exact ⟨rfl, _, _, _, _, rfl⟩

/-! ## Runs -/

theorem keeps_of_served {size : Option Extent} {b : LoggedBackend PictureBackend}
    (served : Served { sourceSize := size } b) (unreset : .reset ∉ b.calls)
    (starts : (accepted (decoded b.calls)).Pairwise fun a c => a.start ≤ c.start) :
    b.state.Keeps (accepted (decoded b.calls)) (renderTimes b.calls) := by
  induction served with
  | start =>
      exact ⟨rfl, List.forall_mem_nil _, .nil, .nil, List.forall_mem_nil _, List.forall_mem_nil _⟩
  | @decode b p _ ih =>
      have log : accepted (decoded (b.decode p).calls) = accept (accepted (decoded b.calls)) p := by
        rw [show decoded (b.decode p).calls = decoded b.calls ++ [p] from decoded_decode p b.calls]
        exact List.foldl_append
      rw [log] at starts ⊢
      exact (ih (fun member => unreset (List.mem_cons_of_mem _ member))
        (starts.sublist (prefix_accept _ p).sublist)).decode starts
  | @render b purpose g pts _ ih =>
      obtain ⟨next, pictures, -⟩ := render_frame b.state g pts
      have keeps := ih (fun member => unreset (List.mem_cons_of_mem _ member)) starts
      have log : renderTimes (b.render purpose g pts).2.calls = renderTimes b.calls ++ [pts] :=
        renderTimes_render ..
      rw [log]
      exact (keeps.drop next (congrArg RingBuffer.items pictures)).1
  | text pts _ ih => exact (ih (fun member => unreset (List.mem_cons_of_mem _ member)) starts).congr rfl rfl
  | reset _ _ => exact absurd List.mem_cons_self unreset
  | select on _ ih => exact (ih (fun member => unreset (List.mem_cons_of_mem _ member)) starts).congr rfl rfl
  | @control b c _ ih =>
      refine (ih (fun member => unreset (List.mem_cons_of_mem _ member)) starts).congr ?_ ?_ <;> cases c <;> rfl

/-- Where pictures arrive in the order of their starts, and times are rendered in order, a frame shows
the picture that should be seen of all that were ever decoded. -/
theorem shows_newest {size : Option Extent} {b : LoggedBackend PictureBackend}
    (served : Served { sourceSize := size } b) (unreset : .reset ∉ b.calls)
    (starts : (accepted (decoded b.calls)).Pairwise fun a c => a.start ≤ c.start)
    {pts : Binary64} (times : (renderTimes b.calls ++ [pts]).Pairwise (· ≤ ·))
    (purpose : Purpose) {g : Geometry} (filled : g.isVoid = false) :
    ∃ frame, (b.render purpose g pts).1 = .ok frame ∧
      frame.Depicts (onScreen (accepted (decoded b.calls)) pts) := by
  obtain ⟨next, pictures, depicts⟩ := render_frame b.state g pts
  obtain ⟨keeps, front⟩ :=
    (keeps_of_served served unreset starts).drop next (congrArg RingBuffer.items pictures)
  refine ⟨(b.state.render g pts).1, rfl, ?_⟩
  rw [← keeps.shown_eq ?_ front]
  · exact depicts filled
  · intro r member
    rcases List.mem_append.1 member with before | here
    · exact .inl ((List.pairwise_append.1 times).2.2 r before pts List.mem_cons_self)
    · exact .inr (List.mem_singleton.1 here)

/-! Of two pictures without an end the second replaces the first, a third ends before it starts, and a
last one clears the screen. -/

def squarePicture (shade : UInt8) : Picture :=
  { x := 4, y := 4, width := 2, height := 1, coverage := #[shade, shade] }

def firstSquare : Packet := ⟨some .one, none, (squarePicture 10).payload⟩

def laterSquares : List Packet :=
  [⟨some (.ofNat 3), none, (squarePicture 20).payload⟩, ⟨some (.ofNat 5), some (-.ofNat 9), (squarePicture 30).payload⟩,
    ⟨some (.ofNat 7), none, #[]⟩]

def squareGeometry : Geometry := { width := 64, height := 48 }

/-- The first picture is on the screen when the others come. -/
def squaresPlayed : LoggedBackend PictureBackend :=
  let first := LoggedBackend.decode firstSquare { state := {} }
  laterSquares.foldl (fun b p => b.decode p) (first.render .demand squareGeometry (.ofNat 2)).2

theorem shows_newest_squares :
    Served {} squaresPlayed ∧ .reset ∉ squaresPlayed.calls ∧ squareGeometry.isVoid = false ∧
      ((accepted (decoded squaresPlayed.calls)).Pairwise fun a c => a.start ≤ c.start) ∧
      (renderTimes squaresPlayed.calls ++ [Binary64.ofNat 4]).Pairwise (· ≤ ·) ∧
      (onScreen (accepted (decoded squaresPlayed.calls)) (.ofNat 4)).map (·.bitmap) = some #[20, 20] ∧
      onScreen (accepted (decoded squaresPlayed.calls)) (.ofNat 6) = none ∧
      ∃ frame, (squaresPlayed.render .demand squareGeometry (.ofNat 4)).1 = .ok frame ∧
        frame.Depicts (onScreen (accepted (decoded squaresPlayed.calls)) (.ofNat 4)) := by
  have served : Served {} squaresPlayed :=
    (Served.start.decode firstSquare |>.render .demand squareGeometry (.ofNat 2)).decodes laterSquares
  have unreset : .reset ∉ squaresPlayed.calls := by decide +kernel
  have starts : (accepted (decoded squaresPlayed.calls)).Pairwise fun a c => a.start ≤ c.start := by decide +kernel
  have times : (renderTimes squaresPlayed.calls ++ [Binary64.ofNat 4]).Pairwise (· ≤ ·) := by decide +kernel
  have filled : squareGeometry.isVoid = false := rfl
  exact ⟨served, unreset, filled, starts, times, by decide +kernel, by decide +kernel,
    shows_newest served unreset starts times .demand filled⟩

end PictureBackend
end Subtitles
