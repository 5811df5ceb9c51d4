import Ecash.Json
import Ecash.Decimal.Printed
import Ecash.Text.Quoted

/-!
# Compact JSON text

No blanks, members in their order. Between processes the text is ASCII, all else
being escaped by UTF-16 unit; the body of a request holds other characters as
they are.
-/
namespace Ecash.Json

namespace Compact

/-- The characters that a text may hold unescaped. -/
inductive Charset where
  /-- Visible ones of ASCII. -/
  | ascii
  /-- All but control characters. -/
  | all
  deriving DecidableEq, Repr

/-- `\u` and four hexadecimal digits. -/
def unit (n : Nat) : List Char := '\\' :: 'u' :: Text.hexPadded 4 n

/-- A code point by its UTF-16 units. -/
def units (n : Nat) : List Char :=
  if n < 0x10000 then unit n
  else unit (0xD800 + (n - 0x10000) / 0x400) ++ unit (0xDC00 + (n - 0x10000) % 0x400)

/-- The escape of a code point that no text may hold as it is. -/
def escape? (n : Nat) : Option (List Char) :=
  if n = 0x22 ∨ n = 0x5C then some ['\\', Char.ofNat n]
  else if n = 0x0A then some ['\\', 'n']
  else if n = 0x0D then some ['\\', 'r']
  else if n = 0x09 then some ['\\', 't']
  else if n = 0x08 then some ['\\', 'b']
  else if n = 0x0C then some ['\\', 'f']
  else if n < 0x20 then some (unit n)
  else none

/-- A code point inside a string. -/
def escaped (set : Charset) (n : Nat) : List Char :=
  match escape? n, set with
  | some cs, _ => cs
  | none, .ascii => if n ≤ 0x7E then [Char.ofNat n] else units n
  | none, .all => Text.keep n

def string (set : Charset) (s : String) : String :=
  String.ofList ('"' :: (Text.points s.toList).flatMap (escaped set) ++ ['"'])

mutual

def value (set : Charset) : Json → String
  | .null => "null"
  | .bool true => "true"
  | .bool false => "false"
  | .int n => toString n
  | .float x => Decimal.Layout.json.text x
  | .str s => string set s
  | .arr items => "[" ++ ",".intercalate (values set items) ++ "]"
  | .obj ms => "\x7b" ++ ",".intercalate (members set ms) ++ "\x7d"

def values (set : Charset) : List Json → List String
  | [] => []
  | v :: vs => value set v :: values set vs

def members (set : Charset) : List (String × Json) → List String
  | [] => []
  | (k, v) :: ms => (string set k ++ ":" ++ value set v) :: members set ms

end

end Compact

/-- The compact text of a value, in ASCII. -/
def compact (v : Json) : String := Compact.value .ascii v

/-- The compact text of a value with all characters as they are. -/
def compactWide (v : Json) : String := Compact.value .all v

end Ecash.Json
