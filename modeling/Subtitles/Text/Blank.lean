/-
Blank characters and lines of text.

Blank is what Unicode calls white space. `trim` takes blanks off both ends of a text and
nothing else; `lines` cuts a text at its line feeds and drops a carriage return before one.
-/
namespace Subtitles.Text

set_option autoImplicit false

/-- The code points of Unicode white space, as ranges. -/
def blankRanges : List (Nat × Nat) :=
  [(0x9, 0xd), (0x20, 0x20), (0x85, 0x85), (0xa0, 0xa0), (0x1680, 0x1680), (0x2000, 0x200a),
    (0x2028, 0x2029), (0x202f, 0x202f), (0x205f, 0x205f), (0x3000, 0x3000)]

def isBlank (c : Char) : Bool := blankRanges.any fun r => decide (r.1 ≤ c.toNat ∧ c.toNat ≤ r.2)

/-- What ASCII calls white space is blank. -/
theorem isBlank_of_isWhitespace {c : Char} (white : c.isWhitespace = true) : isBlank c = true := by
  simp only [Char.isWhitespace, Bool.or_eq_true, decide_eq_true_eq, or_assoc] at white
  rcases white with h | h | h | h <;> subst h <;> decide

def allBlank (cs : List Char) : Bool := cs.all isBlank

def trimStart (cs : List Char) : List Char := cs.dropWhile isBlank

def trimEnd (cs : List Char) : List Char := (cs.reverse.dropWhile isBlank).reverse

def trim (cs : List Char) : List Char := trimEnd (trimStart cs)

/-- Every carriage return before a line feed dropped. -/
def unifyLineEnds : List Char → List Char
  | '\r' :: '\n' :: cs => '\n' :: unifyLineEnds cs
  | c :: cs => c :: unifyLineEnds cs
  | [] => []

/-- A line without the carriage return at its end. -/
def withoutReturn (line : List Char) : List Char :=
  if line.getLast? = some '\r' then line.dropLast else line

/-- The texts between line feeds, at least one. -/
def pieces : List Char → List (List Char)
  | [] => [[]]
  | c :: cs =>
    match pieces cs with
    | [] => [[c]]
    | piece :: rest => if c = '\n' then [] :: piece :: rest else (c :: piece) :: rest

/-- The lines of a text. A last line that is empty does not count, and only a line that a line
feed ends loses a carriage return. -/
def lines (cs : List Char) : List (List Char) :=
  let all := pieces cs
  all.dropLast.map withoutReturn ++ all.getLast?.toList.filter (· ≠ [])

/-- Nothing is lost or reordered by cutting a text into pieces. -/
theorem intercalate_pieces (cs : List Char) : ['\n'].intercalate (pieces cs) = cs := by
  induction cs with
  | nil => rfl
  | cons c cs ih =>
    rw [pieces]
    cases h : pieces cs with
    | nil => simp [h, List.intercalate] at ih; simp [List.intercalate, ← ih]
    | cons piece rest =>
      rw [h] at ih
      by_cases hc : c = '\n'
      · simp [hc, List.intercalate] at ih ⊢; exact ih
      · cases rest <;> simp_all [List.intercalate, List.intersperse]

end Subtitles.Text
