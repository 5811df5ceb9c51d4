import Ecash.Text.Blank
import Ecash.Text.Digit

/-!
# Integer numerals

A numeral is an optional sign and digits, single underscores allowed between
them, with blanks around the whole. In the bases 2, 8 and 16 the digits may
follow `0b`, `0o` or `0x`, and one underscore may follow that. The digits may
come from any script.
-/
namespace Ecash.Text

/-- Blanks allowed around a numeral; the ASCII separators are not. -/
def isNumeralBlank (c : Char) : Bool := isBlank c && !(0x1C ≤ c.toNat && c.toNat ≤ 0x1F)

/-- Digit values of a run of digits with single underscores between them. -/
def digitRun? (base : Nat) : List Char → Option (List Nat)
  | [] => none
  | [c] => (digitValue? base c).map ([·])
  | c :: '_' :: rest => do
    let d ← digitValue? base c
    let ds ← digitRun? base rest
    return d :: ds
  | c :: rest => do
    let d ← digitValue? base c
    let ds ← digitRun? base rest
    return d :: ds

/-- The number written with the digits `ds`, the most significant first. -/
def ofDigits (base : Nat) (ds : List Nat) : Nat := ds.foldl (fun n d => n * base + d) 0

/-- Longest decimal numeral that is read, in digits. -/
def maxDecimalDigits : Nat := 4300

/-- The letter that may follow a zero at the beginning of a numeral. -/
def baseLetter? : Nat → Option Char
  | 2 => some 'b'
  | 8 => some 'o'
  | 16 => some 'x'
  | _ => none

/-- A numeral without the mark of its base. -/
def unmarked (base : Nat) : List Char → List Char
  | '0' :: c :: rest =>
    if some c.toLower = baseLetter? base then
      match rest with
      | '_' :: digits => digits
      | digits => digits
    else '0' :: c :: rest
  | cs => cs

/-- The number of a numeral without sign and blanks. -/
def magnitude? (base : Nat) (cs : List Char) : Option Nat :=
  (digitRun? base (unmarked base cs)).bind fun ds =>
    if base = 10 ∧ maxDecimalDigits < ds.length then none else some (ofDigits base ds)

/-- Reads a numeral in base `base`. -/
def readInt? (base : Nat) (cs : List Char) : Option Int :=
  match dropTail isNumeralBlank (cs.dropWhile isNumeralBlank) with
  | '-' :: rest => (magnitude? base rest).map fun n => -(n : Int)
  | '+' :: rest => (magnitude? base rest).map Int.ofNat
  | body => (magnitude? base body).map Int.ofNat

/-- Reads a decimal numeral. -/
def parseInt? (s : String) : Option Int := readInt? 10 s.toList

/-- Reads a base 16 numeral. -/
def parseHexInt? (s : String) : Option Int := readInt? 16 s.toList

end Ecash.Text
