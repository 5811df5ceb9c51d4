import Ecash.Bytes.Base64
import Ecash.Bytes.Unicode
import Ecash.Json.Same
import Ecash.Json.Shown
import Ecash.Text.Lower
import Ecash.Text.Numeral
import Ecash.Yaml.Scalar

/-!
# Atoms

What a scalar stands for, given its tag. A plain scalar has the tag of its form,
but a tag may also be written in front of any text, so every reader meets texts
of other forms, and reads what it can.
-/
namespace Ecash.Yaml

/-- A value without parts. -/
inductive Atom where
  | null
  | bool (b : Bool)
  | int (n : Int)
  | float (x : Float)
  | text (s : String)
  | bytes (bs : Bytes)
  | time (t : Time)
  deriving DecidableEq, Repr

namespace Atom

/-! ## Words and numbers -/

/-- A truth value in letters of any case. -/
def boolOf (s : String) : Outcome Bool :=
  let word := Text.lowered s
  if word ∈ ["yes", "true", "on"] then .ok true
  else if word ∈ ["no", "false", "off"] then .ok false
  else .error (.missing word)

/-- Underscores group digits and count for nothing. -/
def ungrouped (cs : List Char) : List Char := cs.filter (· != '_')

/-- A numeral of a base. -/
def numeral (base : Nat) (cs : List Char) : Outcome Int :=
  match Text.readInt? base cs with
  | some n => .ok n
  | none => .error .unreadable

/-- The number with these places of sixty. -/
def ofSixties (places : List Int) : Int := places.foldl (fun n d => n * 60 + d) 0

/-- A whole number without its sign. -/
def magnitudeOf (cs : List Char) : Outcome Int :=
  match cs with
  | [] => .error .emptyNumeral
  | ['0'] => .ok 0
  | '0' :: 'b' :: ds => numeral 2 ds
  | '0' :: 'x' :: ds => numeral 16 ds
  | '0' :: _ => numeral 8 cs
  | _ => if cs.contains ':' then return ofSixties (← (cs.splitOn ':').mapM (numeral 10)) else numeral 10 cs

def intOf (s : String) : Outcome Int := do
  let (negative, cs) := cutSign (ungrouped s.toList)
  let n ← magnitudeOf cs
  return if negative then -n else n

/-- A digit of any script as an ASCII digit. -/
def plainDigit (c : Char) : Char :=
  match Text.decimalValue? c with
  | some d => Char.ofNat (48 + d)
  | none => c

/-- A numeral with a point, or a name of what is no finite number. -/
def pointed (cs : List Char) : Outcome Float :=
  let bare := Text.dropTail Text.isNumeralBlank (cs.dropWhile Text.isNumeralBlank)
  match Decimal.read? (bare.map plainDigit) with
  | some x => .ok x
  | none => .error .unreadable

/-- The sum of places of sixty, the last one first, each multiplied by its unit. -/
def sumSixties (sum : Float) (unit : Nat) : List Float → Outcome Float
  | [] => .ok sum
  | d :: ds =>
    match Decimal.ofInt? unit with
    | some u => sumSixties (sum + d * u) (unit * 60) ds
    | none => .error .tooLarge

def floatOf (s : String) : Outcome Float := do
  let cs := ungrouped (Text.lowered (String.ofList (ungrouped s.toList))).toList
  if cs.isEmpty then throw .emptyNumeral
  let (negative, body) := cutSign cs
  let x ←
    if body = ".inf".toList then pure (Decimal.infinite false)
    else if body = ".nan".toList then pure (0.0 / 0.0)
    else if body.contains ':' then sumSixties 0.0 1 (← (body.splitOn ':').mapM pointed).reverse
    else pointed body
  return if negative then -x else x

/-! ## Bytes and times -/

/-- Bytes in base 64. -/
def bytesOf (s : String) : Outcome Bytes :=
  let cs := s.toList
  match if cs.all (·.toNat < 128) then Bytes.ofBase64? cs else none with
  | some bs => .ok bs
  | none => .error .notYaml

/-- A time that exists. -/
def timeOf (s : String) : Outcome Time :=
  match Time.read? (unended s.toList) with
  | none => .error .notObject
  | some t => if t.doesExist then .ok t else .error .unreadable

/-! ## Tags -/

/-- How the scalars with a tag of the language itself are read. -/
def reader? : (name : String) → Option (String → Outcome Atom)
  | "null" => some fun _ => .ok .null
  | "bool" => some fun s => .bool <$> boolOf s
  | "int" => some fun s => .int <$> intOf s
  | "float" => some fun s => .float <$> floatOf s
  | "binary" => some fun s => .bytes <$> bytesOf s
  | "timestamp" => some fun s => .time <$> timeOf s
  | "str" => some fun s => .ok (.text s)
  | _ => none

/-! ## Keys -/

/-- The value that a text of JSON could stand for. -/
def toJson? : Atom → Option Json
  | null => some .null
  | bool b => some (.bool b)
  | int n => some (.int n)
  | float x => some (.float x)
  | text s => some (.str s)
  | bytes _ | time _ => none

/-- The two count as one key of a table. -/
def same (a b : Atom) : Bool :=
  match a, b with
  | time t, time u => t.same u
  | bytes cs, bytes ds => cs = ds
  | a, b =>
    match a.toJson?, b.toJson? with
    | some v, some w => v.same w
    | _, _ => false

/-- One byte inside the quote `q`. -/
def quotedByte (q : Char) (b : UInt8) : List Char :=
  if b < 128 then Text.quotedChar q (Char.ofNat b.toNat) else '\\' :: 'x' :: Text.hexPadded 2 b.toNat

/-- The atom inside a message. -/
def shown : Atom → String
  | bytes bs =>
    let q := Text.quoteFor (bs.map fun b => Char.ofNat b.toNat)
    String.ofList ('b' :: q :: bs.flatMap (quotedByte q) ++ [q])
  | time t => t.shown
  | a => ((a.toJson?).getD .null).shownInside

example : ["-1:30", "0o17", "_", "0x1_F"].map (fun s => (intOf s).toOption) = [some (-90), some 15, none, some 31] := by
  decide +kernel
example : (sumSixties 0.0 1 [30.5, 1.0]).toOption = some 90.5 := by decide +kernel
example : shown (bytes [0x27, 0x0A, 0xFF]) = "b\"'\\n\\xff\"" ∧ same (bool true) (float 1.0) := by decide +kernel

end Atom

end Ecash.Yaml
