/-
# Text.Quoted: text between double quotes

Quotes and backslashes are escaped by a backslash, and so are control characters with a short
name. A character that has no visible form of its own is written as its code point.
-/
import Subtitles.Text.Hidden
namespace Subtitles.Text

set_option autoImplicit false

def hexDigits (n : Nat) : String := String.ofList (Nat.toDigits 16 n)

def escapeQuoted (c : Char) : String :=
  match c with
  | '"' => "\\\""
  | '\\' => "\\\\"
  | '\n' => "\\n"
  | '\r' => "\\r"
  | '\t' => "\\t"
  | '\x00' => "\\0"
  | c => if isHidden c then "\\u\x7b" ++ hexDigits c.toNat ++ "\x7d" else c.toString

def quoted (s : String) : String := "\"" ++ String.join (s.toList.map escapeQuoted) ++ "\""

end Subtitles.Text
