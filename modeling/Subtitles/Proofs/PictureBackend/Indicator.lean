/-
# Proofs.PictureBackend.Indicator: change numbers of pictures, whatever they are used for

Renders are compared by the picture shown and the geometry. Numbers of pictures are not used twice, so
a render that is given the number 0 shows the picture that the one before it showed (`recalls`). Where it
is put also depends on the size that pictures are scaled from (`fit_congr`), which is not compared: if the
video is given another size between the two, the same picture may be put elsewhere
(`number_tells_unless_resized`).
-/
import Mathlib.Data.List.InsertIdx
import Subtitles.Proofs.Geometry
import Subtitles.Proofs.PictureBackend.Newest
import Subtitles.Proofs.Uses
namespace Subtitles

set_option autoImplicit false

/-! ## The size that pictures are scaled from -/

/-- The size of the source video, where this use tells one. -/
def Use.sourceSize? : Use → Option Extent
  | .init codec => if codec.name = "picture" then Extent.parse? codec.extradata else none
  | _ => none

/-- The size of the video, where this use sets one or takes it away. -/
def Use.videoSize? : Use → Option (Option Extent)
  | .control (.video v) => some (if 0 < v.width ∧ 0 < v.height then some ⟨v.width, v.height⟩ else none)
  | _ => none

/-- The size told last: of the source, or else of the video. -/
def sizeTold (us : List Use) : Option Extent :=
  us.findSome? Use.sourceSize? <|> (us.findSome? Use.videoSize?).join

theorem Extent.parse?_empty : Extent.parse? #[] = none := by decide +kernel

theorem Binary64.Alike.toInt32_eq {x y : Binary64} (alike : x.Alike y) : x.toInt32 = y.toInt32 :=
  congrArg Int32.ofInt (alike.clampTo_eq ..)

namespace PictureBackend

variable {b c : PictureBackend} {us : List Use} {u : Use} {g h : Geometry} {pts : Binary64} {f : Frame}

/-- The size that pictures are scaled from, if it is known. -/
def scaledFrom (b : PictureBackend) : Option Extent := b.sourceSize <|> b.videoSize

theorem init_frame (codec : Codec) (b : PictureBackend) :
    (b.init codec).2 = { b with sourceSize := (Use.init codec).sourceSize?.or b.sourceSize } := by
  unfold init Use.sourceSize?
  by_cases known : codec.name = "picture"
  · simp only [known, ne_eq, not_true_eq_false, if_false, if_true]
    by_cases empty : codec.extradata.isEmpty = true
    · rw [if_pos empty, Array.isEmpty_iff.1 empty, Extent.parse?_empty, Option.none_or]
    · rw [if_neg empty]
      cases Extent.parse? codec.extradata with
      | none => rfl
      | some size => rfl
  · simp only [known, ne_eq, not_false_eq_true, if_true, if_false, Option.none_or]

theorem control_frame (c : Command) (b : PictureBackend) :
    (b.control c).2 = { b with videoSize := (Use.control c).videoSize?.getD b.videoSize } := by
  cases c <;> rfl

theorem decode_sizes (p : Packet) (b : PictureBackend) :
    (b.decode p).sourceSize = b.sourceSize ∧ (b.decode p).videoSize = b.videoSize := by
  unfold decode
  split <;> exact ⟨rfl, rfl⟩

/-- A noted key is the last one; its number is 0 only if the last one before is the same, and else it is the
next one. -/
theorem noteKey_cases (b : PictureBackend) (k : PictureKey) :
    ∃ n, b.noteKey k = (n, { b with lastKey := some k, changes := max b.changes n }) ∧
      ((n = 0 ∧ ∃ l, b.lastKey = some l ∧ l.Same k) ∨ n = b.changes + 1) := by
  unfold noteKey
  split
  · next known =>
      obtain ⟨l, last, same⟩ := (Option.any_eq_true ..).1 known
      exact ⟨0, by rw [Nat.max_zero], .inl ⟨rfl, l, last, of_decide_eq_true same⟩⟩
  · exact ⟨_, by rw [Nat.max_eq_right (Nat.le_succ _)], .inr rfl⟩

/-! ## Where a part is put -/

theorem area_congr {m m' n n' : Binary64} (first : m.Alike m') (second : n.Alike n') (length : UInt32) :
    area length m n = area length m' n' := by
  have left := ((Binary64.Alike.refl (.ofNat length.toNat)).sub first.atLeastZero).sub second.atLeastZero
  exact (left.maximum (.refl .one)).eq_of_ne (Binary64.magnitude_maximum_one _)

/-- Where and how large a part is drawn depends on the size that it is scaled from, and the geometry. -/
theorem fit_congr (size : b.scaledFrom = c.scaledFrom) (same : g.Same h) (part : Part) :
    b.fit g part = c.fit h part := by
  obtain ⟨width, height, ⟨left, top, right, bottom⟩, -⟩ := same
  unfold scaledFrom at size
  simp only [fit]
  rw [size, width, height, area_congr left.alike right.alike, area_congr top.alike bottom.alike,
    (left.alike.atLeastZero.add (.refl _)).rounded.toInt32_eq, (top.alike.atLeastZero.add (.refl _)).rounded.toInt32_eq]

/-- The frame of a part, if one is shown. -/
def view (b : PictureBackend) (g : Geometry) (shown : Option Part) (changeId : Nat) : Frame :=
  match shown with
  | some part => if g.isVoid then .blank changeId else ⟨.alpha8, [b.fit g part], changeId⟩
  | none => .blank changeId

theorem view_changeId (b : PictureBackend) (g : Geometry) (shown : Option Part) (n : Nat) :
    (b.view g shown n).changeId = n := by
  unfold view
  split
  · split <;> rfl
  · rfl

theorem view_sameContent (size : b.scaledFrom = c.scaledFrom) (same : g.Same h) (shown : Option Part) (m n : Nat) :
    (b.view g shown m).SameContent (c.view h shown n) := by
  cases shown with
  | none => exact ⟨rfl, rfl⟩
  | some part =>
      simp only [view, same.isVoid_eq, fit_congr size same]
      split <;> exact ⟨rfl, rfl⟩

/-- What a render shows: a picture that is kept, or nothing. -/
theorem render_view (g : Geometry) (pts : Binary64) (b : PictureBackend) :
    ∃ (shown : Option (Nat × Part)) (n : Nat),
      Backend.render g pts b = (.ok (b.view g (shown.map (·.2)) n),
        { b with pictures := b.pictures.drop (overCount pts b.pictures.items)
                 lastKey := some ⟨shown.map (·.1), g⟩
                 changes := max b.changes n }) ∧
      ((n = 0 ∧ ∃ l, b.lastKey = some l ∧ l.Same ⟨shown.map (·.1), g⟩) ∨ n = b.changes + 1) ∧
      ∀ id part, shown = some (id, part) → ∃ q ∈ b.pictures.items, q.id = id ∧ q.part = some part := by
  let left := b.pictures.drop (overCount pts b.pictures.items)
  refine ⟨shown? pts left.items, ?_⟩
  obtain ⟨n, noted, same⟩ :=
    noteKey_cases { b with pictures := left } ⟨(shown? pts left.items).map (·.1), g⟩
  refine ⟨n, ?_, same, fun id part first => ?_⟩
  · show (Except.ok (b.render g pts).1, (b.render g pts).2) = _
    unfold render
    dsimp only
    rw [noted]
    cases shown? pts left.items <;> rfl
  · have inside : ∀ q ∈ left.items, q ∈ b.pictures.items := fun q member => List.mem_of_mem_drop member
    unfold shown? at first
    split at first
    · next id' start stop part' rest queue =>
        split at first
        · obtain ⟨rfl, rfl⟩ := Prod.mk.inj (Option.some.inj first)
          exact ⟨_, inside _ (queue ▸ List.mem_cons_self), rfl, rfl⟩
        · cases first
    · cases first

/-- The sizes known after uses are those told last. -/
theorem sizes_afterUses (us : List Use) :
    (afterUses ({} : PictureBackend) us).sourceSize = us.findSome? Use.sourceSize? ∧
      (afterUses ({} : PictureBackend) us).videoSize = (us.findSome? Use.videoSize?).join := by
  induction us with
  | nil => exact ⟨rfl, rfl⟩
  | cons u us ih =>
      cases u with
      | init codec =>
          have became : afterUses ({} : PictureBackend) (.init codec :: us) = _ := init_frame codec _
          rw [became, List.findSome?_cons, ih.1]
          refine ⟨?_, ih.2⟩
          cases (Use.init codec).sourceSize? <;> rfl
      | decode p =>
          obtain ⟨source, video⟩ := decode_sizes p (afterUses {} us)
          exact ⟨source.trans ih.1, video.trans ih.2⟩
      | render g pts =>
          obtain ⟨shown, n, became, -⟩ := render_view g pts (afterUses {} us)
          have state : afterUses ({} : PictureBackend) (.render g pts :: us) = _ := congrArg Prod.snd became
          rw [state]
          exact ih
      | text pts => exact ih
      | control c =>
          have became : afterUses ({} : PictureBackend) (.control c :: us) = _ := control_frame c _
          rw [became]
          refine ⟨ih.1, ?_⟩
          rw [List.findSome?_cons]
          cases (Use.control c).videoSize? with
          | none => exact ih.2
          | some size => rfl
      | reset => exact ih

theorem scaledFrom_afterUses (us : List Use) : (afterUses ({} : PictureBackend) us).scaledFrom = sizeTold us := by
  rw [scaledFrom, (sizes_afterUses us).1, (sizes_afterUses us).2, sizeTold]

/-! ## The key -/

/-- The picture of a number, if it is still kept; no other will have the number. -/
def Names (b : PictureBackend) (id : Nat) (part : Part) : Prop :=
  id < b.nextId ∧ ∀ q ∈ b.pictures.items, q.id = id → q.part = some part

/-- A packet adds one picture at most, with the next number, and leaves the parts of the others. -/
theorem decode_adds (p : Packet) (b : PictureBackend) :
    b.nextId ≤ (b.decode p).nextId ∧ (b.decode p).lastKey = b.lastKey ∧
      ∃ added : Option Part, ∀ q ∈ (b.decode p).pictures.items,
        (∃ q' ∈ b.pictures.items, q.id = q'.id ∧ q.part = q'.part) ∨
          q.id = b.nextId ∧ q.part = added ∧ b.nextId < (b.decode p).nextId := by
  unfold decode
  cases readable? p with
  | none => exact ⟨Nat.le_refl _, rfl, none, fun q member => .inl ⟨q, member, rfl, rfl⟩⟩
  | some content =>
      refine ⟨Nat.le_succ _, rfl, content.2, fun q member => ?_⟩
      rcases List.eq_or_mem_of_mem_insertIdx member with rfl | earlier
      · exact .inr ⟨rfl, rfl, Nat.lt_succ_self _⟩
      · obtain ⟨q', there, rfl⟩ := List.mem_map.1 earlier
        refine .inl ⟨q', there, cutAt_id .., ?_⟩
        unfold cutAt
        split <;> rfl

/-- The pictures kept have numbers that were given, and as many parts as numbers. -/
structure Numbered (b : PictureBackend) : Prop where
  below : ∀ q ∈ b.pictures.items, q.id < b.nextId
  agree : ∀ q ∈ b.pictures.items, ∀ q' ∈ b.pictures.items, q.id = q'.id → q.part = q'.part

theorem Numbered.mono (numbered : b.Numbered) (next : c.nextId = b.nextId)
    (kept : c.pictures.items ⊆ b.pictures.items) : c.Numbered :=
  ⟨fun q member => next ▸ numbered.below q (kept member),
    fun q member q' member' => numbered.agree q (kept member) q' (kept member')⟩

theorem Numbered.decode (numbered : b.Numbered) (p : Packet) : (b.decode p).Numbered := by
  obtain ⟨grown, -, added, from_⟩ := decode_adds p b
  refine ⟨fun q member => ?_, fun q member q' member' same => ?_⟩
  · obtain ⟨o, there, id, -⟩ | ⟨id, -, next⟩ := from_ q member
    · exact id ▸ Nat.lt_of_lt_of_le (numbered.below o there) grown
    · exact id ▸ next
  · obtain ⟨o, there, id, part⟩ | ⟨id, part, -⟩ := from_ q member <;>
      obtain ⟨o', there', id', part'⟩ | ⟨id', part', -⟩ := from_ q' member'
    · rw [part, part']
      exact numbered.agree o there o' there' (id.symm.trans (same.trans id'))
    · have old := numbered.below o there
      omega
    · have old := numbered.below o' there'
      omega
    · rw [part, part']

theorem Names.mono {id : Nat} {part : Part} (names : b.Names id part) (next : b.nextId ≤ c.nextId)
    (kept : c.pictures.items ⊆ b.pictures.items) : c.Names id part :=
  ⟨Nat.lt_of_lt_of_le names.1 next, fun q member => names.2 q (kept member)⟩

theorem Names.decode {id : Nat} {part : Part} (names : b.Names id part) (p : Packet) : (b.decode p).Names id part := by
  obtain ⟨grown, -, added, from_⟩ := decode_adds p b
  refine ⟨Nat.lt_of_lt_of_le names.1 grown, fun q member same => ?_⟩
  obtain ⟨o, there, id', part'⟩ | ⟨next, -⟩ := from_ q member
  · exact part'.trans (names.2 o there (id'.symm.trans same))
  · exact absurd names.1 (by omega)

theorem Numbered.names (numbered : b.Numbered) {q : PendingPicture} (kept : q ∈ b.pictures.items) {part : Part}
    (shows : q.part = some part) : b.Names q.id part :=
  ⟨numbered.below q kept, fun q' member same => (numbered.agree q' member q kept same).trans shows⟩

/-- The key noted last is that of the latest render, and the number in it still names what that showed. -/
structure Recalls (us : List Use) : Prop where
  numbered : (afterUses ({} : PictureBackend) us).Numbered
  last : ∀ k, (afterUses ({} : PictureBackend) us).lastKey = some k →
    ∃ (shown : Option (Nat × Part)) (pts : Binary64) (older : List Use) (n : Nat),
      Repeatable us k.geometry pts older ∧ k.shown = shown.map (·.1) ∧
      renderAfter ({} : PictureBackend) older k.geometry pts =
        .ok ((afterUses ({} : PictureBackend) older).view k.geometry (shown.map (·.2)) n) ∧
      ∀ id part, shown = some (id, part) → (afterUses ({} : PictureBackend) us).Names id part

/-- A use that change numbers look past keeps the key, and the names. -/
theorem Recalls.pass (recalls : Recalls us) (passes : u.passes = true)
    (numbered : (afterUses ({} : PictureBackend) (u :: us)).Numbered)
    (key : (afterUses ({} : PictureBackend) (u :: us)).lastKey = (afterUses ({} : PictureBackend) us).lastKey)
    (names : ∀ id part, (afterUses ({} : PictureBackend) us).Names id part →
      (afterUses ({} : PictureBackend) (u :: us)).Names id part) :
    Recalls (u :: us) := by
  refine ⟨numbered, fun k last => ?_⟩
  obtain ⟨shown, pts, older, n, before, number, drew, named⟩ := recalls.last k (key ▸ last)
  exact ⟨shown, pts, older, n, before.later passes, number, drew,
    fun id part first => names id part (named id part first)⟩

theorem Recalls.render (recalls : Recalls us) (g : Geometry) (pts : Binary64) : Recalls (.render g pts :: us) := by
  obtain ⟨shown, n, became, -, kept⟩ := render_view g pts (afterUses ({} : PictureBackend) us)
  have state : afterUses ({} : PictureBackend) (.render g pts :: us) = _ := congrArg Prod.snd became
  have answer : renderAfter ({} : PictureBackend) us g pts = _ := congrArg Prod.fst became
  refine ⟨?_, fun k last => ?_⟩ <;> rw [state] at *
  · exact recalls.numbered.mono rfl (List.drop_subset ..)
  · obtain rfl := Option.some.inj last
    refine ⟨shown, pts, us, n, .now g pts us, rfl, answer, fun id part first => ?_⟩
    obtain ⟨q, there, rfl, shows⟩ := kept id part first
    exact (recalls.numbered.names there shows).mono (Nat.le_refl _) (List.drop_subset ..)

theorem recalls (us : List Use) : Recalls us := by
  induction us with
  | nil => exact ⟨⟨List.forall_mem_nil _, List.forall_mem_nil _⟩, nofun⟩
  | cons u us ih =>
      cases u with
      | init codec =>
          have became : afterUses ({} : PictureBackend) (.init codec :: us) = _ := init_frame codec _
          refine ih.pass rfl ?_ ?_ ?_ <;> rw [became]
          · exact ih.numbered.mono rfl (List.Subset.refl _)
          · exact fun id part names => names.mono (Nat.le_refl _) (List.Subset.refl _)
      | decode p => exact ih.pass rfl (ih.numbered.decode p) (decode_adds p _).2.1 fun id part names => names.decode p
      | render g pts => exact ih.render g pts
      | text pts => exact ih.pass rfl ih.numbered rfl fun id part names => names
      | control c =>
          have became : afterUses ({} : PictureBackend) (.control c :: us) = _ := control_frame c _
          refine ih.pass rfl ?_ ?_ ?_ <;> rw [became]
          · exact ih.numbered.mono rfl (List.Subset.refl _)
          · exact fun id part names => names.mono (Nat.le_refl _) (List.Subset.refl _)
      | reset => exact ⟨⟨List.forall_mem_nil _, List.forall_mem_nil _⟩, nofun⟩

/-! ## What the number 0 tells -/

/-- A frame depicts the part it is a view of, unless there is nowhere to put it. -/
theorem view_depicts (b : PictureBackend) (g : Geometry) (shown : Option Part) (n : Nat) :
    (b.view g shown n).Depicts (if g.isVoid then none else shown) := by
  unfold view
  split
  · split
    · exact ⟨rfl, rfl⟩
    · exact ⟨rfl, _, _, _, _, rfl⟩
  · rw [ite_self]
    exact ⟨rfl, rfl⟩

/-- A render that is given the number 0 views what the latest one before it did. -/
theorem views_of_zero (answer : renderAfter ({} : PictureBackend) us g pts = .ok f) (number : f.changeId = 0) :
    ∃ h pts' older shown n n', Repeatable us h pts' older ∧ h.Same g ∧
      f = (afterUses ({} : PictureBackend) us).view g shown n ∧
      renderAfter ({} : PictureBackend) older h pts' =
        .ok ((afterUses ({} : PictureBackend) older).view h shown n') := by
  obtain ⟨shown, n, became, told, kept⟩ := render_view g pts (afterUses ({} : PictureBackend) us)
  obtain rfl : f = _ := Except.ok.inj (answer.symm.trans (congrArg Prod.fst became))
  rw [view_changeId] at number
  obtain ⟨-, k, last, shownSame, geometry⟩ | next := told
  · obtain ⟨shown', pts', older, n', before, number', drew, named⟩ := (recalls us).last k last
    have same : shown.map (·.2) = shown'.map (·.2) := by
      have ids : shown'.map (·.1) = shown.map (·.1) := number'.symm.trans shownSame
      cases shown with
      | none => rw [Option.map_eq_none_iff.1 ids]
      | some found =>
          obtain ⟨⟨id, part⟩, rfl, rfl⟩ := Option.map_eq_some_iff.1 ids
          obtain ⟨q, there, number, shows⟩ := kept _ _ rfl
          exact shows.symm.trans ((named _ _ rfl).2 q there number)
    exact ⟨k.geometry, pts', older, _, n, n', before, geometry, rfl, same ▸ drew⟩
  · exact absurd (next.symm.trans number) (Nat.succ_ne_zero _)

/-- It shows the same, if the size that pictures are scaled from is the same. -/
theorem repeats_of_zero (answer : renderAfter ({} : PictureBackend) us g pts = .ok f) (number : f.changeId = 0) :
    ∃ g' pts' older f', Repeatable us g' pts' older ∧ renderAfter ({} : PictureBackend) older g' pts' = .ok f' ∧
      (sizeTold us = sizeTold older → f.SameContent f') := by
  obtain ⟨h, pts', older, shown, n, n', before, geometry, rfl, drew⟩ := views_of_zero answer number
  refine ⟨h, pts', older, _, before, drew, fun size => view_sameContent ?_ geometry.symm _ _ _⟩
  rw [scaledFrom_afterUses, scaledFrom_afterUses, size]

/-! ## Other numbers -/

theorem changes_le_on (u : Use) (b : PictureBackend) : b.changes ≤ (u.on b).changes := by
  cases u with
  | init codec => exact Nat.le_of_eq (congrArg changes (init_frame codec b)).symm
  | decode p =>
      show b.changes ≤ (b.decode p).changes
      unfold decode
      split <;> exact Nat.le_refl _
  | render g pts =>
      obtain ⟨shown, n, became, -⟩ := render_view g pts b
      have state : (Use.render g pts).on b = _ := congrArg Prod.snd became
      rw [state]
      exact Nat.le_max_left ..
  | text pts => exact Nat.le_refl _
  | control c => exact Nat.le_of_eq (congrArg changes (control_frame c b)).symm
  | reset => exact Nat.le_refl _

theorem changes_le_append (newer older : List Use) :
    (afterUses ({} : PictureBackend) older).changes ≤ (afterUses ({} : PictureBackend) (newer ++ older)).changes := by
  induction newer with
  | nil => exact Nat.le_refl _
  | cons u newer ih => exact Nat.le_trans ih (changes_le_on u _)

theorem numbersGrow : NumbersGrow ({} : PictureBackend) := by
  rintro _ g pts f answer number e ⟨newer, g', pts', older, rfl, answer'⟩
  obtain ⟨shown, n, became, told, -⟩ :=
    render_view g pts (afterUses ({} : PictureBackend) (newer ++ .render g' pts' :: older))
  obtain ⟨shown', n', became', -⟩ := render_view g' pts' (afterUses ({} : PictureBackend) older)
  obtain rfl : f = _ := Except.ok.inj (answer.symm.trans (congrArg Prod.fst became))
  obtain rfl : e = _ := Except.ok.inj (answer'.symm.trans (congrArg Prod.fst became'))
  have grown := changes_le_append newer (.render g' pts' :: older)
  have state : afterUses ({} : PictureBackend) (.render g' pts' :: older) = _ := congrArg Prod.snd became'
  have counted : n' ≤ (afterUses ({} : PictureBackend) (.render g' pts' :: older)).changes := by
    rw [state]
    exact Nat.le_max_right ..
  rw [view_changeId] at number ⊢
  rw [view_changeId]
  obtain ⟨zero, -⟩ | next := told
  · exact absurd zero number
  · omega

/-- Of any uses, a render is given the number 0 only where there was one before it, with no reset since, that
depicts the same part. It is put where it was then, if the size that pictures are scaled from is the same. -/
theorem number_tells_unless_resized (us : List Use) {g : Geometry} {pts : Binary64} {f : Frame}
    (answer : renderAfter ({} : PictureBackend) us g pts = .ok f) (number : f.changeId = 0) :
    ∃ g' pts' older f', Repeatable us g' pts' older ∧ renderAfter ({} : PictureBackend) older g' pts' = .ok f' ∧
      (∃ part, f.Depicts part ∧ f'.Depicts part) ∧ (sizeTold us = sizeTold older → f.SameContent f') := by
  obtain ⟨h, pts', older, shown, n, n', before, geometry, rfl, drew⟩ := views_of_zero answer number
  refine ⟨h, pts', older, _, before, drew, ⟨_, view_depicts .., ?_⟩, fun size => ?_⟩
  · rw [← geometry.isVoid_eq]
    exact view_depicts ..
  · refine view_sameContent ?_ geometry.symm _ _ _
    rw [scaledFrom_afterUses, scaledFrom_afterUses, size]

/-! A picture is shown, and then the size of the video becomes known. -/

def dotPicture : Packet :=
  ⟨some .one, none, Picture.payload { x := 10, y := 20, width := 2, height := 1, coverage := #[200, 100] }⟩

def dotGeometry : Geometry := { width := 160, height := 90 }

/-- The video is twice as wide and twice as high as the output. -/
def resizedUses (extradata : Bytes) : List Use :=
  [.control (.video { width := 320, height := 180 }), .render dotGeometry .one, .decode dotPicture,
    .init { name := "picture", extradata }]

/-- The size of the source was known from the start, so the picture stays where it is. -/
theorem number_tells_unless_resized_known :
    ∃ f, renderAfter ({} : PictureBackend) (resizedUses "320x180".toUTF8.data) dotGeometry .one = .ok f ∧
      f.changeId = 0 ∧ f.parts.map (·.displayWidth) = [1] ∧
      ∃ g' pts' older f', Repeatable (resizedUses "320x180".toUTF8.data) g' pts' older ∧
        renderAfter ({} : PictureBackend) older g' pts' = .ok f' ∧ (∃ part, f.Depicts part ∧ f'.Depicts part) ∧
        (sizeTold (resizedUses "320x180".toUTF8.data) = sizeTold older → f.SameContent f') := by
  refine ⟨_, rfl, ?_, ?_, number_tells_unless_resized _ rfl ?_⟩ <;> decide +kernel

/-- Without it the picture moves and shrinks, and the number is 0 all the same. -/
theorem number_misleads_when_resized :
    ∃ older f f', Repeatable (resizedUses #[]) dotGeometry .one older ∧
      renderAfter ({} : PictureBackend) older dotGeometry .one = .ok f' ∧
      renderAfter ({} : PictureBackend) (resizedUses #[]) dotGeometry .one = .ok f ∧
      f.changeId = 0 ∧ f.parts.map (fun p => (p.x, p.y, p.displayWidth)) = [(5, 10, 1)] ∧
      f'.parts.map (fun p => (p.x, p.y, p.displayWidth)) = [(10, 20, 2)] ∧ ¬ f.SameContent f' := by
  refine ⟨_, _, _, (Repeatable.now dotGeometry .one _).later rfl, rfl, rfl, ?_, ?_, ?_, fun same => ?_⟩
  · decide +kernel
  · decide +kernel
  · decide +kernel
  · exact absurd same.2 (by decide +kernel)

end PictureBackend
end Subtitles
