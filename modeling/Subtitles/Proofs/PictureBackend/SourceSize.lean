/-
# Proofs.PictureBackend.SourceSize: sizes in extra data

A picture stream may say in its extra data how large its source video is: in valid UTF-8, a width and a
height with an `x` between them, and blanks around them but not inside. Both are numerals of numbers that
fit in 32 bits and are not zero (`Extent.WrittenAs`). `Extent.parse?` reads these texts and no others
(`parse?_eq_some_iff`), so a second `x` and a number that is too large are refused, and what is printed of a
size is read back. A backend that refuses its codec stays as it is (`init_of_not_suits`).
-/
import Subtitles.PictureBackend
import Subtitles.Proofs.Decimal.Reading
import Mathlib.Data.List.DropRight
namespace Subtitles

set_option autoImplicit false

open Reading (Numeral natural?_eq_some_iff)

/-! ## Blanks around a text -/

namespace Text

variable {before mid after : List Char}

/-- Blanks come off both ends of a text, and off nothing else. -/
theorem exists_eq_trim (cs : List Char) :
    ∃ before after, allBlank before = true ∧ allBlank after = true ∧ cs = before ++ trim cs ++ after := by
  refine ⟨cs.takeWhile isBlank, (trimStart cs).rtakeWhile isBlank, List.all_takeWhile,
    List.all_eq_true.2 fun c member => List.mem_rtakeWhile_imp member, ?_⟩
  calc cs = cs.takeWhile isBlank ++ trimStart cs := List.takeWhile_append_dropWhile.symm
    _ = cs.takeWhile isBlank ++ (trim cs ++ (trimStart cs).rtakeWhile isBlank) :=
      congrArg _ List.rdropWhile_append_rtakeWhile.symm
    _ = _ := (List.append_assoc _ _ _).symm

/-- All blanks around a text without blanks come off. -/
theorem trim_append (blank : allBlank before = true) (some : mid ≠ []) (visible : ∀ c ∈ mid, isBlank c = false)
    (blank' : allBlank after = true) : trim (before ++ mid ++ after) = mid := by
  have start : trimStart (before ++ mid ++ after) = mid ++ after := by
    rw [trimStart, List.append_assoc, List.dropWhile_append_of_pos (List.all_eq_true.1 blank)]
    obtain ⟨c, rest, rfl⟩ := List.exists_cons_of_ne_nil some
    exact List.dropWhile_cons_of_neg (by simp [visible c (List.mem_cons_self)])
  have stop : trimEnd (mid ++ after) = trimEnd mid := by
    rw [trimEnd, List.reverse_append, List.dropWhile_append_of_pos fun c member =>
      List.all_eq_true.1 blank' c (List.mem_reverse.1 member), trimEnd]
  have fixed : trimEnd mid = mid := List.rdropWhile_eq_self_iff.2 fun some => by
    simp [visible _ (List.getLast_mem some)]
  rw [trim, start, stop, fixed]

end Text

/-! ## Sizes -/

namespace Extent

variable {size : Extent} {cs : List Char} {data : Bytes}

/-- Blanks, the width, an `x`, the height, blanks; neither number is zero. -/
def WrittenAs (size : Extent) (cs : List Char) : Prop :=
  ∃ before width height after, Text.allBlank before = true ∧ Text.allBlank after = true ∧
    Numeral width size.width.toNat ∧ 0 < size.width.toNat ∧
    Numeral height size.height.toNat ∧ 0 < size.height.toNat ∧ cs = before ++ (width ++ 'x' :: height) ++ after

/-- The bytes are valid UTF-8, and the size is written in them. -/
def EncodedAs (size : Extent) (data : Bytes) : Prop :=
  ∃ text : String, text.toUTF8.data = data ∧ size.WrittenAs text.toList

/-- Neither a blank nor an `x` is part of a number. -/
theorem visible_of_numeral {n : Nat} (numeral : Numeral cs n) : ∀ c ∈ cs, Text.isBlank c = false ∧ c ≠ 'x' := by
  intro c member
  obtain rfl | digit := numeral.plus_or_isDigit member
  · decide
  have range := Reading.isDigit_iff.1 digit
  constructor
  · simp only [Text.isBlank, Text.blankRanges, List.any_cons, List.any_nil, Bool.or_false, Bool.or_eq_false_iff,
      decide_eq_false_iff_not]
    omega
  · rintro rfl
    exact absurd range (by decide)

theorem fromUTF8?_eq_some_iff {text : String} :
    String.fromUTF8? ⟨data⟩ = some text ↔ text.toUTF8.data = data := by
  constructor
  · intro decoded
    rw [String.fromUTF8?] at decoded
    split at decoded
    · obtain rfl := Option.some.inj decoded
      rfl
    · cases decoded
  · rintro rfl
    exact dif_pos text.isValidUTF8

/-! The first `x` of a text cuts it in two. -/

theorem cut_eq {width : List Char} (height : List Char) (plain : ∀ c ∈ width, c ≠ 'x') :
    (width ++ 'x' :: height).takeWhile (· ≠ 'x') = width ∧
      (width ++ 'x' :: height).dropWhile (· ≠ 'x') = 'x' :: height := by
  have plain' : ∀ c ∈ width, decide (c ≠ 'x') = true := fun c member => decide_eq_true (plain c member)
  constructor
  · rw [List.takeWhile_append_of_pos plain', List.takeWhile_cons_of_neg (by decide), List.append_nil]
  · rw [List.dropWhile_append_of_pos plain', List.dropWhile_cons_of_neg (by decide)]

theorem eq_of_cut {c : Char} {rest : List Char} (cut : cs.dropWhile (· ≠ 'x') = c :: rest) :
    cs = cs.takeWhile (· ≠ 'x') ++ 'x' :: rest := by
  have cross : c = 'x' := by
    have head := List.head?_dropWhile_not (fun c => decide (c ≠ 'x')) cs
    rw [cut] at head
    simpa using head
  rw [← cross, ← cut, cross, List.takeWhile_append_dropWhile]

/-- The text before the first `x` is the width, all after it the height, and both fit their words. -/
theorem parse?_eq_some_iff_cut :
    parse? data = some size ↔ ∃ text : String, text.toUTF8.data = data ∧ ∃ width height,
      Numeral width size.width.toNat ∧ 0 < size.width.toNat ∧
      Numeral height size.height.toNat ∧ 0 < size.height.toNat ∧
      Text.trim text.toList = width ++ 'x' :: height := by
  constructor
  · intro read
    simp only [parse?, Option.bind_eq_bind, Option.bind_eq_some_iff] at read
    obtain ⟨text, decoded, width, first, rest⟩ := read
    split at rest
    · next c second cut =>
      obtain ⟨height, second', within⟩ := Option.bind_eq_some_iff.1 rest
      obtain ⟨⟨positive, small, positive', small'⟩, made⟩ := Option.ite_none_right_eq_some.1 within
      obtain rfl := Option.some.inj made
      refine ⟨text, fromUTF8?_eq_some_iff.1 decoded, _, second, ?_, ?_, ?_, ?_, eq_of_cut cut⟩
      all_goals simp only [UInt32.toNat_ofNat_of_lt' small, UInt32.toNat_ofNat_of_lt' small']
      · exact natural?_eq_some_iff.1 first
      · exact positive
      · exact natural?_eq_some_iff.1 second'
      · exact positive'
    · cases rest
  · rintro ⟨text, encoded, width, height, first, positive, second, positive', whole⟩
    obtain ⟨before, after⟩ := cut_eq height fun c member => (visible_of_numeral first c member).2
    have fits : 0 < size.width.toNat ∧ size.width.toNat < 0x100000000 ∧ 0 < size.height.toNat ∧
        size.height.toNat < 0x100000000 := ⟨positive, size.width.toNat_lt, positive', size.height.toNat_lt⟩
    simp only [parse?, fromUTF8?_eq_some_iff.2 encoded, whole, before, after, natural?_eq_some_iff.2 first,
      natural?_eq_some_iff.2 second, Option.bind_eq_bind, Option.bind_some, if_pos fits, UInt32.ofNat_toNat]

/-- A text of numbers and an `x` has no blanks. -/
theorem visible_of_numerals {width height : List Char} {n m : Nat} (first : Numeral width n)
    (second : Numeral height m) : ∀ c ∈ width ++ 'x' :: height, Text.isBlank c = false := by
  intro c member
  obtain inside | rfl | inside := List.mem_append.1 member |>.imp_right List.mem_cons.1
  · exact (visible_of_numeral first c inside).1
  · decide
  · exact (visible_of_numeral second c inside).1

theorem parse?_eq_some_iff : parse? data = some size ↔ size.EncodedAs data := by
  rw [parse?_eq_some_iff_cut]
  refine exists_congr fun text => and_congr_right fun _ => ⟨?_, ?_⟩
  · rintro ⟨width, height, first, positive, second, positive', whole⟩
    obtain ⟨before, after, blank, blank', cut⟩ := Text.exists_eq_trim text.toList
    exact ⟨before, width, height, after, blank, blank', first, positive, second, positive', whole ▸ cut⟩
  · rintro ⟨before, width, height, after, blank, blank', first, positive, second, positive', whole⟩
    refine ⟨width, height, first, positive, second, positive', ?_⟩
    rw [whole, Text.trim_append blank (by simp) (visible_of_numerals first second) blank']

/-- A size printed with an `x` between its two numbers is written so. -/
theorem encodedAs_print (positive : 0 < size.width) (positive' : 0 < size.height) :
    size.EncodedAs (s!"{size.width}x{size.height}").toUTF8.data := by
  have print : (s!"{size.width}x{size.height}").toList =
      Nat.toDigits 10 size.width.toNat ++ 'x' :: Nat.toDigits 10 size.height.toNat := by
    simp [toString, Nat.toList_repr]
  refine ⟨_, rfl, [], _, _, [], rfl, rfl, Reading.numeral_toDigits _, positive, Reading.numeral_toDigits _, positive',
    ?_⟩
  rw [print]
  simp

end Extent

namespace PictureBackend

variable {codec : Codec}

/-- The codec is that of pictures, with no extra data or with those of a size. -/
def Suits (codec : Codec) : Prop :=
  codec.name = "picture" ∧ (codec.extradata = #[] ∨ ∃ size : Extent, size.EncodedAs codec.extradata)

theorem init_of_suits (suits : Suits codec) (b : PictureBackend) : (b.init codec).1 = .ok () := by
  obtain ⟨name, none | ⟨size, encoded⟩⟩ := suits
  · rw [init, if_neg (not_not.2 name), if_pos (by simpa using none)]
  · rw [init, if_neg (not_not.2 name), Extent.parse?_eq_some_iff.2 encoded]
    split <;> rfl

theorem init_of_not_suits (unfit : ¬ Suits codec) (b : PictureBackend) : ∃ e, b.init codec = (.error e, b) := by
  rw [init]
  by_cases other : codec.name ≠ "picture"
  · exact ⟨_, if_pos other⟩
  have name : codec.name = "picture" := not_not.1 other
  have some : codec.extradata ≠ #[] := fun none => unfit ⟨name, .inl none⟩
  rw [if_neg other, if_neg (by simpa using some)]
  cases read : Extent.parse? codec.extradata with
  | some size => exact absurd ⟨name, .inr ⟨size, Extent.parse?_eq_some_iff.1 read⟩⟩ unfit
  | none => exact ⟨_, rfl⟩

end PictureBackend

/-- Just the texts of a size are read, as that size: valid UTF-8 with a width, an `x` and a height, blanks around
them, both numbers positive and within 32 bits, written with digits, zeros before them and a plus sign or not.
What is printed of a size is one of them. A backend starts with the codec of pictures, with no extra data or
those of a size, and stays as it is when it does not start. -/
theorem sizes_read_exactly :
    (∀ (data : Bytes) (size : Extent), Extent.parse? data = some size ↔ size.EncodedAs data) ∧
    (∀ size : Extent, 0 < size.width → 0 < size.height →
      Extent.parse? (s!"{size.width}x{size.height}").toUTF8.data = some size) ∧
    ∀ (codec : Codec) (b : PictureBackend),
      ((b.init codec).1 = .ok () ↔ PictureBackend.Suits codec) ∧
      ∀ e, (b.init codec).1 = .error e → (b.init codec).2 = b := by
  refine ⟨fun data size => Extent.parse?_eq_some_iff,
    fun size positive positive' => Extent.parse?_eq_some_iff.2 (Extent.encodedAs_print positive positive'),
    fun codec b => ?_⟩
  by_cases suits : PictureBackend.Suits codec
  · have started := PictureBackend.init_of_suits suits b
    refine ⟨iff_of_true started suits, fun e failed => ?_⟩
    cases started.symm.trans failed
  · obtain ⟨e, refused⟩ := PictureBackend.init_of_not_suits suits b
    rw [refused]
    exact ⟨iff_of_false nofun suits, fun _ _ => rfl⟩

/-- Blanks, a plus sign and a zero before a width; the largest height; and a second `x`. -/
theorem sizes_read_exactly_padded :
    let padded := "\t+0640x4294967295 \n".toUTF8.data
    let largest : Extent := ⟨640, 4294967295⟩
    let doubled : Codec := ⟨"picture", "640x360x1".toUTF8.data⟩
    let b : PictureBackend := { sourceSize := some largest }
    Extent.parse? padded = some largest ∧ largest.EncodedAs padded ∧
      Extent.parse? (s!"{largest.width}x{largest.height}").toUTF8.data = some largest ∧
      (∀ size : Extent, ¬ size.EncodedAs doubled.extradata) ∧ (∃ e, (b.init doubled).1 = .error e) ∧
      (b.init doubled).2 = b := by
  intro padded largest doubled b
  obtain ⟨grammar, printed, starts⟩ := sizes_read_exactly
  have read : Extent.parse? padded = some largest := by decide +kernel
  have unread : Extent.parse? doubled.extradata = none := by decide +kernel
  have noSize : ∀ size : Extent, ¬ size.EncodedAs doubled.extradata := fun size encoded => by
    cases unread.symm.trans ((grammar _ size).2 encoded)
  obtain ⟨e, failed⟩ : ∃ e, (b.init doubled).1 = .error e := by
    cases answer : (b.init doubled).1 with
    | error e => exact ⟨e, rfl⟩
    | ok u =>
        obtain ⟨-, none | ⟨size, encoded⟩⟩ := (starts doubled b).1.1 answer
        · exact absurd none (by decide +kernel)
        · exact absurd encoded (noSize size)
  exact ⟨read, (grammar _ _).1 read, printed largest (by decide) (by decide), noSize, ⟨e, failed⟩,
    (starts doubled b).2 e failed⟩

end Subtitles
