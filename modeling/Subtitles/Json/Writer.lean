/-
# Json.Writer: compact JSON text
-/
import Subtitles.Decimal.Notation
import Subtitles.Packet
namespace Subtitles.Json

set_option autoImplicit false

namespace Write

def hexDigit (n : Nat) : Char := Char.ofNat (if n < 10 then 48 + n else 87 + n)

def escape (c : Char) : List Char :=
  match c with
  | '"' => ['\\', '"']
  | '\\' => ['\\', '\\']
  | '\x08' => ['\\', 'b']
  | '\x0c' => ['\\', 'f']
  | '\n' => ['\\', 'n']
  | '\r' => ['\\', 'r']
  | '\t' => ['\\', 't']
  | c =>
    if c.toNat < 0x20 then ['\\', 'u', '0', '0', hexDigit (c.toNat / 16), hexDigit (c.toNat % 16)]
    else [c]

def string (s : String) : String :=
  "\"" ++ String.ofList (s.toList.flatMap escape) ++ "\""

def natural (n : Nat) : String := Notation.digitText (if n = 0 then [0] else Decimal.digitsOf n)

def double (x : Binary64) : String := Notation.json.write x

def bool (b : Bool) : String := if b then "true" else "false"

def optional {α : Type} (write : α → String) : Option α → String
  | some a => write a
  | none => "null"

def array (items : List String) : String := "[" ++ ",".intercalate items ++ "]"

def bytes (data : Bytes) : String := array (data.toList.map fun b => natural b.toNat)

/-- An object of members in the order given. -/
def object (members : List (String × String)) : String :=
  "\x7b" ++ ",".intercalate (members.map fun m => string m.1 ++ ":" ++ m.2) ++ "\x7d"

end Write
end Subtitles.Json
