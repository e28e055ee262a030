/-
# Proofs.PictureBackend.Payload: payloads and what is read of them

Any twelve bytes and what follows them are the payload of one picture (`exists_payload`), whose
coverage may have any length. If that is the length its size asks for, the payload is read as a part
with the same fields, and it is refused if not (`parse_payload`). So the payloads that are read are
those of full pictures and the empty one (`payload_codec`). A packet that cannot be read, or has no
time, leaves the backend as it is.
-/
import Subtitles.PictureBackend
namespace Subtitles

set_option autoImplicit false

/-- The part has the fields of a picture, and is shown at its own size. -/
structure Part.Shows (part : Part) (p : Picture) : Prop where
  x : part.x.toInt = p.x.toNat
  y : part.y.toInt = p.y.toNat
  width : part.width.toNat = p.width.toNat
  height : part.height.toNat = p.height.toNat
  displayWidth : part.displayWidth = part.width
  displayHeight : part.displayHeight = part.height
  stride : part.stride.toNat = p.width.toNat
  color : part.color = p.color
  bitmap : part.bitmap = p.coverage

namespace Picture

variable {p q : Picture} {part : Part} {data : Bytes}

/-- There is a byte of coverage for each pixel. -/
def Full (p : Picture) : Prop := p.coverage.size = p.width.toNat * p.height.toNat

instance (p : Picture) : Decidable p.Full := inferInstanceAs (Decidable (_ = _))

theorem shows_unique (first : part.Shows p) (second : part.Shows q) : p = q := by
  have x := first.x.symm.trans second.x
  have y := first.y.symm.trans second.y
  have width := first.width.symm.trans second.width
  have height := first.height.symm.trans second.height
  obtain ⟨px, py, pw, ph, pc, pb⟩ := p
  obtain ⟨qx, qy, qw, qh, qc, qb⟩ := q
  obtain rfl : px = qx := UInt16.toNat_inj.1 (Int.ofNat.inj x)
  obtain rfl : py = qy := UInt16.toNat_inj.1 (Int.ofNat.inj y)
  obtain rfl : pw = qw := UInt16.toNat_inj.1 width
  obtain rfl : ph = qh := UInt16.toNat_inj.1 height
  obtain rfl : pc = qc := first.color.symm.trans second.color
  obtain rfl : pb = qb := first.bitmap.symm.trans second.bitmap
  rfl

/-! ## Words -/

theorem toNat_wordOf (low high : UInt8) : (wordOf low high).toNat = high.toNat * 256 + low.toNat := by
  have small := low.toNat_lt
  have small' := high.toNat_lt
  have eight : (8 : UInt16).toNat % 16 = 8 := rfl
  rw [wordOf, UInt16.toNat_or, UInt16.toNat_shiftLeft, UInt8.toNat_toUInt16, UInt8.toNat_toUInt16, eight,
    Nat.mod_eq_of_lt (by rw [Nat.shiftLeft_eq]; omega), Nat.or_comm, ← Nat.shiftLeft_add_eq_or_of_lt small,
    Nat.shiftLeft_eq]

theorem toNat_highByte (v : UInt16) : (v >>> 8).toUInt8.toNat = v.toNat / 256 := by
  have small := v.toNat_lt
  have eight : (8 : UInt16).toNat % 16 = 8 := rfl
  rw [UInt16.toNat_toUInt8, UInt16.toNat_shiftRight, eight, Nat.shiftRight_eq_div_pow]
  omega

theorem wordOf_bytes (v : UInt16) : wordOf v.toUInt8 (v >>> 8).toUInt8 = v := by
  apply UInt16.toNat_inj.1
  rw [toNat_wordOf, toNat_highByte, UInt16.toNat_toUInt8]
  omega

theorem wordBytes_wordOf (low high : UInt8) : wordBytes (wordOf low high) = #[low, high] := by
  have small := low.toNat_lt
  have lowByte : (wordOf low high).toUInt8 = low := by
    apply UInt8.toNat_inj.1
    rw [UInt16.toNat_toUInt8, toNat_wordOf]
    omega
  have highByte : (wordOf low high >>> 8).toUInt8 = high := by
    apply UInt8.toNat_inj.1
    rw [toNat_highByte, toNat_wordOf]
    omega
  rw [wordBytes, lowByte, highByte]

/-! ## Payloads -/

/-- The twelve bytes of the header, and then the coverage. -/
theorem payload_eq (p : Picture) : p.payload =
    ⟨p.x.toUInt8 :: (p.x >>> 8).toUInt8 :: p.y.toUInt8 :: (p.y >>> 8).toUInt8 ::
      p.width.toUInt8 :: (p.width >>> 8).toUInt8 :: p.height.toUInt8 :: (p.height >>> 8).toUInt8 ::
      p.color.alpha :: p.color.blue :: p.color.green :: p.color.red :: p.coverage.toList⟩ := by
  simp [payload, wordBytes]

theorem payload_ne_empty (p : Picture) : p.payload ≠ #[] := by simp [payload_eq]

/-- What is long enough for a header is the payload of some picture. -/
theorem exists_payload (long : headerLength ≤ data.size) : ∃ p : Picture, p.payload = data := by
  obtain ⟨bytes⟩ := data
  match bytes, long with
  | b0 :: b1 :: b2 :: b3 :: b4 :: b5 :: b6 :: b7 :: b8 :: b9 :: b10 :: b11 :: coverage, _ =>
      refine ⟨⟨wordOf b0 b1, wordOf b2 b3, wordOf b4 b5, wordOf b6 b7, ⟨b11, b10, b9, b8⟩, ⟨coverage⟩⟩, ?_⟩
      simp [payload, wordBytes_wordOf]

/-- Words have a place among the positions of parts. -/
theorem toInt_ofWord (v : UInt16) : (Int32.ofNat v.toNat).toInt = v.toNat := by
  have small := v.toNat_lt
  exact Int32.toInt_ofNat_of_lt (by omega)

/-- The payload of a full picture is read as a part with its fields; any other is malformed. -/
theorem parse_payload (p : Picture) :
    (p.Full → ∃ part, parse p.payload = .ok (some part) ∧ part.Shows p) ∧
      (¬ p.Full → ∃ reason, parse p.payload = .error (.decode reason)) := by
  have read : parse p.payload = ((Part.ofCoverage? (Int32.ofNat p.x.toNat) (Int32.ofNat p.y.toNat) p.width.toUInt32
      p.height.toUInt32 p.color p.coverage).map some).mapError fun e => .decode e.message := by
    have notEmpty : p.payload.isEmpty = false := by simpa using payload_ne_empty p
    have long : ¬ p.payload.size < headerLength := by
      rw [payload_eq, headerLength]
      simp only [List.size_toArray, List.length_cons]
      omega
    have coverage : p.payload.extract headerLength p.payload.size = p.coverage := by
      simp [payload_eq, headerLength, List.take_of_length_le]
    rw [parse, notEmpty, if_neg Bool.false_ne_true, if_neg long, coverage, payload_eq]
    simp only [Nat.mul_zero, Array.getD_eq_getD_getElem?, List.size_toArray, List.length_cons, Array.length_toList,
      Nat.lt_add_left_iff_pos, Nat.zero_lt_succ, getElem?_pos, List.getElem_toArray, List.getElem_cons_zero,
      Option.getD_some, Nat.zero_add, List.getElem_cons_succ, wordOf_bytes, Nat.mul_one, Nat.reduceAdd, Nat.reduceMul]
    cases Part.ofCoverage? (Int32.ofNat p.x.toNat) (Int32.ofNat p.y.toNat) p.width.toUInt32 p.height.toUInt32 p.color
      p.coverage <;> rfl
  have expected : min (p.width.toUInt32.toNat * p.height.toUInt32.toNat) maxLength = p.width.toNat * p.height.toNat := by
    rw [UInt16.toNat_toUInt32, UInt16.toNat_toUInt32]
    have within : p.width.toNat * p.height.toNat ≤ 65535 * 65535 :=
      Nat.mul_le_mul (Nat.le_of_lt_succ p.width.toNat_lt) (Nat.le_of_lt_succ p.height.toNat_lt)
    exact Nat.min_eq_left (Nat.le_trans within (by decide))
  rw [read, Part.ofCoverage?, expected]
  constructor
  · intro full
    rw [if_pos (show p.coverage.size = p.width.toNat * p.height.toNat from full)]
    exact ⟨_, rfl, toInt_ofWord p.x, toInt_ofWord p.y, UInt16.toNat_toUInt32 _, UInt16.toNat_toUInt32 _, rfl, rfl,
      by simp, rfl, rfl⟩
  · intro notFull
    rw [if_neg (show ¬ p.coverage.size = p.width.toNat * p.height.toNat from notFull)]
    exact ⟨_, rfl⟩

theorem parse_short (some : data ≠ #[]) (short : data.size < headerLength) :
    ∃ reason, parse data = .error (.decode reason) := by
  rw [parse, if_neg (by simpa using some), if_pos short]
  exact ⟨_, rfl⟩

/-- A payload is empty, or that of a full picture, or malformed. -/
theorem parse_cases (data : Bytes) :
    (data = #[] ∧ parse data = .ok none) ∨
      (∃ p part, p.Full ∧ p.payload = data ∧ parse data = .ok (some part) ∧ part.Shows p) ∨
      (data ≠ #[] ∧ (∀ p : Picture, p.Full → p.payload ≠ data) ∧ ∃ reason, parse data = .error (.decode reason)) := by
  by_cases none : data = #[]
  · exact .inl ⟨none, none ▸ rfl⟩
  by_cases short : data.size < headerLength
  · refine .inr (.inr ⟨none, ?_, parse_short none short⟩)
    rintro p - rfl
    rw [payload_eq, headerLength] at short
    simp only [List.size_toArray, List.length_cons] at short
    omega
  obtain ⟨p, rfl⟩ := exists_payload (Nat.le_of_not_lt short)
  by_cases full : p.Full
  · obtain ⟨part, read, shows⟩ := (parse_payload p).1 full
    exact .inr (.inl ⟨p, part, full, rfl, read, shows⟩)
  · obtain ⟨reason, refused⟩ := (parse_payload p).2 full
    refine .inr (.inr ⟨none, fun q other same => ?_, reason, refused⟩)
    obtain ⟨part, read, -⟩ := (parse_payload q).1 other
    rw [same, refused] at read
    cases read

end Picture

/-- The payload of a full picture is read as a part with its fields, and what is read as a part is the payload
of the picture with the fields of that part. Nothing else is read but the empty payload. A packet without a time,
or whose payload is not read, changes nothing. -/
theorem payload_codec :
    (∀ p : Picture, p.Full → ∃ part, Picture.parse p.payload = .ok (some part) ∧ part.Shows p) ∧
    (∀ data part, Picture.parse data = .ok (some part) →
      ∃ p, part.Shows p ∧ (∀ q, part.Shows q → q = p) ∧ p.Full ∧ p.payload = data) ∧
    (∀ data, Picture.parse data = .ok none ↔ data = #[]) ∧
    (∀ data, (∃ reason, Picture.parse data = .error (.decode reason)) ↔
      data ≠ #[] ∧ ∀ p : Picture, p.Full → p.payload ≠ data) ∧
    ∀ (p : Packet) (b : PictureBackend), (p.pts = none ∨ ∃ e, Picture.parse p.data = .error e) → b.decode p = b := by
  refine ⟨fun p => (Picture.parse_payload p).1, fun data part read => ?_, fun data => ?_, fun data => ?_,
    fun p b useless => ?_⟩
  · obtain ⟨-, clear⟩ | ⟨p, part', full, payload, read', shows⟩ | ⟨-, -, reason, refused⟩ := Picture.parse_cases data
    · cases clear.symm.trans read
    · obtain rfl := Option.some.inj (Except.ok.inj (read'.symm.trans read))
      exact ⟨p, shows, fun q other => Picture.shows_unique other shows, full, payload⟩
    · cases refused.symm.trans read
  · obtain ⟨none, clear⟩ | ⟨p, part, full, payload, read, shows⟩ | ⟨some, -, reason, refused⟩ := Picture.parse_cases data
    · exact iff_of_true clear none
    · refine iff_of_false (fun clear => ?_) (payload ▸ Picture.payload_ne_empty p)
      cases read.symm.trans clear
    · refine iff_of_false (fun clear => ?_) some
      cases refused.symm.trans clear
  · obtain ⟨none, clear⟩ | ⟨p, part, full, payload, read, shows⟩ | ⟨some, other, refused⟩ := Picture.parse_cases data
    · refine iff_of_false (fun ⟨_, refused⟩ => ?_) (fun malformed => malformed.1 none)
      cases clear.symm.trans refused
    · refine iff_of_false (fun ⟨_, refused⟩ => ?_) (fun malformed => malformed.2 p full payload)
      cases read.symm.trans refused
    · exact iff_of_true refused ⟨some, other⟩
  · have unread : PictureBackend.readable? p = none := by
      obtain timeless | ⟨e, refused⟩ := useless
      · rw [PictureBackend.readable?, timeless]
      · rw [PictureBackend.readable?, refused]
        cases p.pts <;> rfl
    rw [PictureBackend.decode, unread]

/-- A picture of two pixels, and one that lacks a byte of coverage. -/
theorem payload_codec_pair :
    let pair : Picture := ⟨300, 2, 2, 1, ⟨1, 2, 3, 4⟩, #[9, 8]⟩
    let torn : Picture := { pair with coverage := #[9] }
    pair.payload = #[44, 1, 2, 0, 2, 0, 1, 0, 4, 3, 2, 1, 9, 8] ∧
      (∃ part, Picture.parse pair.payload = .ok (some part) ∧ part.Shows pair) ∧
      (∃ reason, Picture.parse torn.payload = .error (.decode reason)) ∧
      ({} : PictureBackend).decode { pts := some .one, data := torn.payload } = {} := by
  intro pair torn
  have bytes : pair.payload = #[44, 1, 2, 0, 2, 0, 1, 0, 4, 3, 2, 1, 9, 8] := by decide +kernel
  have full : pair.Full := by decide +kernel
  have notFull : ¬ torn.Full := by decide +kernel
  obtain ⟨reason, refused⟩ := (Picture.parse_payload torn).2 notFull
  exact ⟨bytes, payload_codec.1 pair full, ⟨reason, refused⟩, payload_codec.2.2.2.2 _ _ (.inr ⟨_, refused⟩)⟩

end Subtitles
