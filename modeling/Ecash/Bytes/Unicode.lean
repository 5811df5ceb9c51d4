import Ecash.Bytes.Hex
import Ecash.Failure
import Ecash.Text.Half

/-!
# Texts as bytes

Kept texts are written in UTF-8, which has no form for half a pair. Bytes that
hold a JSON text may be in any encoding of Unicode: such a text begins with an
ASCII character, so the zeros among its first bytes tell which.
-/
namespace Ecash.Bytes

/-- The UTF-8 bytes of a kept text. -/
def encode (s : String) : Outcome Bytes :=
  if Text.hasHalf s then .error .notEncodable
  else .ok ((Text.points s.toList).flatMap fun n => String.utf8EncodeChar (Char.ofNat n))

/-- The text with these UTF-8 bytes, kept. -/
def text? (bs : Bytes) : Option String := (String.fromUTF8? bs.toByteArray).map Text.kept

/-- The order of the bytes of a unit. -/
inductive Endian where
  | big
  | little
  deriving DecidableEq, Repr

/-- How a text is encoded. -/
inductive Encoding where
  | utf8
  /-- After a byte order mark. -/
  | utf8Marked
  | utf16 (order : Endian)
  | utf32 (order : Endian)
  deriving DecidableEq, Repr

/-- Which encoding a JSON text is in. -/
def encodingOf (bs : Bytes) : Encoding :=
  match bs with
  | 0xEF :: 0xBB :: 0xBF :: _ => .utf8Marked
  | [0, _] => .utf16 .big
  | [_, 0] => .utf16 .little
  | 0 :: b :: _ :: _ :: _ => if b = 0 then .utf32 .big else .utf16 .big
  | _ :: 0 :: c :: d :: _ => if c = 0 ∧ d = 0 then .utf32 .little else .utf16 .little
  | _ => .utf8

/-- Items two by two; none if one is left over. -/
def pairs? {α : Type} : List α → Option (List (α × α))
  | [] => some []
  | [_] => none
  | a :: b :: rest => (pairs? rest).map ((a, b) :: ·)

/-- A number from its two halves. -/
def Endian.join (order : Endian) (base : Nat) (p : Nat × Nat) : Nat :=
  match order with
  | .big => p.1 * base + p.2
  | .little => p.2 * base + p.1

/-- Units of 16 bits. -/
def units16? (order : Endian) (bs : Bytes) : Option (List Nat) :=
  (pairs? (bs.map UInt8.toNat)).map (·.map (order.join 256))

/-- Units of 32 bits. -/
def units32? (order : Endian) (bs : Bytes) : Option (List Nat) := do
  return (← pairs? (← units16? order bs)).map (order.join 65536)

/-- The text in an encoding; halves of pairs are let through. -/
def Encoding.decode? (e : Encoding) (bs : Bytes) : Option String :=
  let ofPoints (ns : List Nat) : Option String :=
    if ns.any (0x10FFFF < ·) then none else some (String.ofList (ns.flatMap Text.keep))
  match e with
  | .utf8 => text? bs
  | .utf8Marked => text? (bs.drop 3)
  | .utf16 order => (units16? order bs).bind fun ns => ofPoints (Text.joinUnits ns)
  | .utf32 order => (units32? order bs).bind ofPoints

/-- The text of bytes that hold a JSON text. -/
def jsonText? (bs : Bytes) : Option String := (encodingOf bs).decode? bs

example : jsonText? [0x7B, 0, 0x7D, 0] = some "\x7b\x7d" ∧ jsonText? [0, 0, 0, 0x31] = some "1" := by
  decide +kernel
example : jsonText? [0x7B, 0x7D, 0] = some "\x7b\x7d\x00" ∧ jsonText? [0, 0x31, 0, 0x31, 0] = none := by
  decide +kernel

end Ecash.Bytes
