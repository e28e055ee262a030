/-
# Proofs.Cache.Ended: what an operation did that ended

Of an operation that ends without a fault it is known which entry it found and what it put in its place
(`addReference_cases`, `publish_cases`, `share_cases`). A prune and a flush are rows of releases. What holds
of the cache, and of the handles still to be released, is carried from one release to the next
(`pruneFrom_induction`, `flushFrom_induction`); a look-up is a prune with at most one reference taken after
it (`checkOut_induction`).
-/
import Subtitles.Proofs.Ended
import Subtitles.Proofs.Cache.Consistency
namespace Subtitles

set_option autoImplicit false

namespace Cache

variable {c b : Cache} {h : Handle} {pts : Binary64} {queue : List Handle}

theorem addReference_cases (added : c.addReference h = .ok b) :
    ∃ e, c.entry? h = some e ∧ b = c.put h { e with references := e.references + 1 } := by
  unfold addReference at added
  split at added
  · next e found => exact ⟨e, found, (Except.ok.inj added).symm⟩
  · exact absurd added nofun

theorem publish_cases {frame : Frame} (published : c.publish h frame = .ok b) :
    ∃ e, c.entry? h = some e ∧ e.isRendered = false ∧
      b = { c.put h { e with storage := .owned frame } with
        counters.storagesMade := c.counters.storagesMade + 1 } := by
  unfold publish at published
  split at published
  · exact absurd published nofun
  · next e found =>
      split at published
      · exact absurd published nofun
      · next pending => exact ⟨e, found, Bool.eq_false_iff.2 pending, (Except.ok.inj published).symm⟩

theorem share_cases {owner : Handle} (shared : c.share h owner = .ok b) :
    c.isRendered owner = true ∧ ∃ e, c.entry? h = some e ∧ e.isRendered = false ∧
      b = { c.put h { e with storage := .shared owner } with counters.shared := c.counters.shared + 1 } := by
  unfold share at shared
  split at shared
  · exact absurd shared nofun
  · next rendered =>
      split at shared
      · exact absurd shared nofun
      · next e found =>
          split at shared
          · exact absurd shared nofun
          · next pending =>
              exact ⟨eq_true_of_ne_false rendered, e, found, Bool.eq_false_iff.2 pending,
                (Except.ok.inj shared).symm⟩

/-- What holds of a cache and of the handles it has to prune holds, release by release, of what is left of both.
Those that are left are queued in the end. -/
theorem pruneFrom_induction {P : Cache → List Handle → Prop} (pruned : c.pruneFrom pts queue = .ok b)
    (start : P c queue)
    (drop : ∀ c h rest d, P c (h :: rest) → Cache.release c h = .ok d →
      P { d with counters.pruned := d.counters.pruned + 1 } rest)
    (stop : ∀ c left, P c left → P { c with queue := left } left) : P b b.queue := by
  induction queue generalizing c with
  | nil =>
      obtain rfl := Except.ok.inj pruned
      exact stop c [] start
  | cons h rest ih =>
      unfold pruneFrom at pruned
      split at pruned
      · exact absurd pruned nofun
      · split at pruned
        · obtain ⟨d, released, pruned⟩ := bind_eq_ok_iff.1 pruned
          exact ih pruned (drop c h rest d start released)
        · obtain rfl := Except.ok.inj pruned
          exact stop c (h :: rest) start

/-- A flush counts an entry before it releases it. -/
theorem flushFrom_induction {P : Cache → List Handle → Prop} (flushed : c.flushFrom queue = .ok b)
    (start : P c queue)
    (drop : ∀ c h rest d, P c (h :: rest) →
      Cache.release { c with counters.flushed := c.counters.flushed + 1 } h = .ok d → P d rest) : P b [] := by
  induction queue generalizing c with
  | nil =>
      obtain rfl := Except.ok.inj flushed
      exact start
  | cons h rest ih =>
      obtain ⟨d, released, flushed⟩ := bind_eq_ok_iff.1 flushed
      exact ih flushed (drop c h rest d start released)

/-- What a prune and taking a reference keep, a look-up keeps. -/
theorem checkOut_induction {P : Cache → Prop} {hit : Option Handle} (checked : c.checkOut pts = .ok (hit, b))
    (prune : ∀ d, c.prune pts = .ok d → P d)
    (add : ∀ c h b, P c → Cache.addReference c h = .ok b → P b) : P b := by
  obtain ⟨d, pruned, checked⟩ := bind_eq_ok_iff.1 checked
  have kept := prune d pruned
  split at checked
  · cases checked
    exact kept
  · next h _ _ =>
      split at checked
      · obtain ⟨d', added, checked⟩ := bind_eq_ok_iff.1 checked
        cases checked
        exact add d h _ kept added
      · cases checked
        exact kept

end Cache
end Subtitles
