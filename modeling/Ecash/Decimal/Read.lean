import Ecash.Decimal.Double

/-!
# Reading doubles

A numeral has an optional sign, digits with at most one point among them or at
either end, and an optional exponent. It stands for the nearest double; one
that is too large stands for infinity.
-/
namespace Ecash.Decimal

def isDigit (c : Char) : Bool := '0' ≤ c && c ≤ '9'

/-- The number written with these digits. -/
def ofDigits (ds : List Char) : Nat := ds.foldl (fun n c => n * 10 + (c.toNat - 48)) 0

/-- A whole number: digits throughout, at least one, after an optional sign. -/
def readWhole? (cs : List Char) : Option Int :=
  let digits (ds : List Char) : Option Nat :=
    if ds.isEmpty ∨ !ds.all isDigit then none else some (ofDigits ds)
  match cs with
  | '-' :: ds => (digits ds).map fun n => -(n : Int)
  | '+' :: ds => (digits ds).map Int.ofNat
  | ds => (digits ds).map Int.ofNat

/-- The exponent after a numeral's digits; none written is zero. -/
def readExponent? : List Char → Option Int
  | [] => some 0
  | 'e' :: cs | 'E' :: cs => readWhole? cs
  | _ => none

def infinite (negative : Bool) : Float := if negative then -(1.0 / 0.0) else 1.0 / 0.0

/-- The power of ten of an exponent; beyond the bound, which grows with the
number of digits, every double is zero or infinite. -/
def clampExponent (digits : Nat) (e : Int) : Int :=
  let bound : Int := 400 + digits
  max (-bound) (min e bound)

/-- A numeral without its sign. -/
def readUnsigned? (negative : Bool) (cs : List Char) : Option Float :=
  let whole := cs.takeWhile isDigit
  let rest := cs.dropWhile isDigit
  let (fraction, rest) := match rest with
    | '.' :: rest => (rest.takeWhile isDigit, rest.dropWhile isDigit)
    | _ => ([], rest)
  let digits := whole ++ fraction
  if digits.isEmpty then none
  else (readExponent? rest).map fun e =>
    (ofScientific? negative (ofDigits digits)
      (clampExponent digits.length (e - fraction.length))).getD (infinite negative)

/-- Names of what is no finite number, in lower case. -/
def readName? (negative : Bool) (cs : List Char) : Option Float :=
  match String.ofList (cs.map Char.toLower) with
  | "inf" | "infinity" => some (infinite negative)
  | "nan" => some (0.0 / 0.0)
  | _ => none

/-- Reads a numeral or a name. -/
def read? (cs : List Char) : Option Float :=
  let body (negative : Bool) (cs : List Char) := (readName? negative cs).or (readUnsigned? negative cs)
  match cs with
  | '-' :: rest => body true rest
  | '+' :: rest => body false rest
  | _ => body false cs

example : read? "-12.50e1".toList = some (-125.0) ∧ read? ".5".toList = some 0.5 := by decide +kernel
example : read? "1e".toList = none ∧ read? ".".toList = none ∧ read? "1.2.3".toList = none := by
  decide +kernel
example : read? "2e400".toList = some (1.0 / 0.0) := by decide +kernel

end Ecash.Decimal
