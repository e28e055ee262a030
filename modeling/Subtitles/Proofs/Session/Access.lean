/-
# Proofs.Session.Access: calls, cut up into what is done under the lock

A caller has the lock of a stream for an `Access` at a time. What an action of a session does to its
stream is one access or a few (`accesses_turn`), so whatever accesses keep, actions keep. An acquire
looks up the entry for its time first, and that stands apart: nothing else takes one out, and only a
release gives one back (`undisturbed_turn`).
-/
import Mathlib.Logic.Relation
import Subtitles.Proofs.Session.Turn
import Subtitles.Proofs.Stream.Reading
namespace Subtitles

set_option autoImplicit false

variable {σ : Type} [Backend σ]

/-- What a caller does at once while it has the lock, if it takes no entry out of the cache. -/
inductive Stream.Access (s : Stream σ) : Stream σ → Prop
  /-- Packets are read or fed, whatever becomes of the source. -/
  | packets (source : Source) (lastRead : Option Binary64) (drained : Bool) (ps : List Packet) :
      Access s (enter ps { s with source, lastRead, drained })
  | request (pts : Binary64) : Access s (s.request pts)
  | text (pts : Binary64) : Access s (s.text pts).2
  | select (on : Bool) : Access s (s.select on)
  | control (command : Command) : Access s (s.control command).2
  | video (params : VideoFormat) : Access s (s.noteVideo params)
  | reset {t : Stream σ} : s.reset = .ok t → Access s t
  /-- An acquire that waits looks again. -/
  | resume (pts : Binary64) {h : Handle} : s.current = some h → Access s (s.resume pts h).2
  | demand (g : Geometry) (pts : Binary64) : Access s (s.renderOnDemand g pts).2
  | release {f : HeldFrame} {t : Stream σ} : s.release f = .ok t → Access s t

/-- Accesses, one after the other. -/
def Stream.Accesses : Stream σ → Stream σ → Prop := Relation.ReflTransGen Stream.Access

namespace Stream

variable {s t : Stream σ}

/-- Whatever a read takes from the source, it passes on. -/
theorem readUntil_enters (pts : Binary64) (s : Stream σ) :
    ∃ source lastRead ps, (s.readUntil pts).2 = enter ps { s with source, lastRead } := by
  fun_induction readUntil pts s with
  | case1 s done => exact ⟨s.source, s.lastRead, [], (enter_nil s).symm⟩
  | case2 s unread p source polled s' beyond =>
      exact ⟨source, p.pts, [p], ((enter_cons p [] _).trans (enter_nil _)).symm⟩
  | case3 s unread p source polled s' within ih =>
      obtain ⟨source', lastRead, ps, took⟩ := ih
      refine ⟨source', lastRead, p :: ps, took.trans ?_⟩
      rw [enter_cons]
      congr 1
      simp only [s', deliver]
      split <;> simp_all [threaded]
  | case4 s unread source polled => exact ⟨source, s.lastRead, [], (enter_nil _).symm⟩
  | case5 s unread source polled => exact ⟨source, s.lastRead, [], (enter_nil _).symm⟩
  | case6 s unread source polled => exact ⟨source, s.lastRead, [], (enter_nil _).symm⟩

theorem access_source (source : Source) : s.Access { s with source } := by
  have access := Access.packets (s := s) source s.lastRead s.drained []
  rwa [enter_nil] at access

theorem access_deliver (p : Packet) : s.Access (s.deliver p) := by
  have access := Access.packets (s := s) s.source s.lastRead s.drained [p]
  rwa [enter_cons, enter_nil] at access

theorem accesses_prepare (pts : Binary64) : s.Accesses (s.prepare pts).2 := by
  obtain ⟨source, lastRead, ps, took⟩ := readUntil_enters pts s
  have read : s.Access (s.readUntil pts).2 := took ▸ .packets source lastRead s.drained ps
  show s.Accesses (if (s.readUntil pts).1 then _ else _)
  split
  · exact .tail (.single read) (.request pts)
  · exact .single read

theorem accesses_drain : s.Accesses s.drain.2 := by
  unfold drain
  split
  · exact .refl
  · split
    · exact .refl
    · simp only [foldl_deliver]
      have same : { enter s.source.untilEnd { s with source := s.source.pastEnd } with drained := true } =
          enter s.source.untilEnd { s with source := s.source.pastEnd, drained := true } := by
        unfold enter
        split <;> simp_all [threaded]
      rw [same]
      exact .single (.packets _ s.lastRead true s.source.untilEnd)

/-- What is left of an acquire once it has looked up its entry. -/
theorem accesses_acquire (g : Geometry) (pts : Binary64) (s : Stream σ) :
    Accesses (s.lookUp g pts).2 (s.acquire g pts).2 := by
  unfold acquire
  cases s.lookUp g pts with
  | mk answer t =>
      cases answer with
      | miss => exact .single (.demand g pts)
      | _ => exact .refl

end Stream

/-- What an action does to the stream is done by accesses, unless it is an acquire. -/
theorem Session.accesses_turn (s : Session σ) {a : Action} (alone : ∀ pts g, a ≠ .overtake pts g)
    (other : ∀ g pts, a ≠ .acquire g pts) : s.stream.Accesses (s.turn a) := by
  cases a with
  | offer p =>
      show s.stream.Accesses (s.stream.offer p)
      unfold Stream.offer
      split
      · exact .refl
      · exact .single (Stream.access_deliver p)
  | request pts => exact .single (.request pts)
  | prepare pts => exact Stream.accesses_prepare pts
  | drain =>
      rw [turn]
      split
      · exact .refl
      · exact Stream.accesses_drain
  | text pts => exact .single (.text pts)
  | control command => exact .single (.control command)
  | select on => exact .single (.select on)
  | video params => exact .single (.video params)
  | reset =>
      obtain kept | reset := s.turn_reset_cases
      · rw [kept]
        exact .refl
      · exact .single (.reset reset)
  | acquire g pts => exact absurd rfl (other g pts)
  | release =>
      obtain kept | ⟨f, -, released⟩ := s.turn_release_cases
      · rw [kept]
        exact .refl
      · exact .single (.release released)
  | send p =>
      obtain kept | ⟨source, -, became⟩ := s.turn_send_cases p
      · rw [kept]
        exact .refl
      · rw [became]
        exact .single (Stream.access_source source)
  | close => exact .single (Stream.access_source s.stream.source.closeSender)
  | overtake pts g => exact absurd rfl (alone pts g)

/-- What is neither an acquire nor a release leaves alone what is out. -/
theorem Session.undisturbed_turn (s : Session σ) {a : Action} (alone : ∀ pts g, a ≠ .overtake pts g)
    (keeps : ∀ g pts, a ≠ .acquire g pts) (stays : a ≠ .release) : Stream.Undisturbed s.stream (s.turn a) := by
  cases a with
  | offer p =>
      show Stream.Undisturbed s.stream (if s.stream.drained then _ else _)
      split
      · exact .refl _
      · exact Stream.undisturbed_deliver p _
  | request pts => exact Stream.undisturbed_request pts _
  | prepare pts => exact Stream.undisturbed_prepare pts _
  | drain =>
      rw [turn]
      split
      · exact .refl _
      · exact Stream.undisturbed_drain _
  | text pts => exact Stream.undisturbed_text pts _
  | control command => exact ⟨rfl, rfl, rfl, rfl, rfl⟩
  | select on => exact ⟨rfl, rfl, rfl, rfl, rfl⟩
  | video params =>
      show Stream.Undisturbed s.stream (if s.stream.lastVideo = some params then _ else _)
      split
      · exact .refl _
      · exact ⟨rfl, rfl, rfl, rfl, rfl⟩
  | reset =>
      obtain kept | reset := s.turn_reset_cases
      · rw [kept]
        exact .refl _
      · obtain ⟨cache, -, became⟩ := Stream.reset_cases reset
        rw [became]
        exact ⟨rfl, rfl, rfl, rfl, rfl⟩
  | acquire g pts => exact absurd rfl (keeps g pts)
  | release => exact absurd rfl stays
  | send p =>
      obtain kept | ⟨source, -, became⟩ := s.turn_send_cases p
      · rw [kept]
        exact .refl _
      · rw [became]
        exact ⟨rfl, rfl, rfl, rfl, rfl⟩
  | close => exact ⟨rfl, rfl, rfl, rfl, rfl⟩
  | overtake pts g => exact absurd rfl (alone pts g)

end Subtitles
