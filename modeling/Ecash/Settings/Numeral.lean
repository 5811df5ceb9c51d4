import Ecash.Decimal.Read
import Ecash.Text.Numeral

/-!
# Numerals of settings

A setting may be given as a text. Numerals are read leniently: a whole number
may have a fraction of zeros, zeros in front, also after its sign, and single
underscores between its digits. Digits are those of ASCII.
-/
namespace Ecash.Settings.Numeral

open Decimal (isDigit)

/-- A numeral without blanks around it. -/
def bare (cs : List Char) : List Char := Text.dropTail Text.isNumeralBlank (cs.dropWhile Text.isNumeralBlank)

/-- The characters between single underscores. -/
def ungrouped? (cs : List Char) : Option (List Char) :=
  let groups := cs.splitOn '_'
  if groups.any List.isEmpty then none else some groups.flatten

/-! ## Whole numbers -/

/-- What comes of a text in place of a whole number. -/
inductive Whole where
  | read (n : Int)
  /-- It has more digits than numerals may have. -/
  | long
  | malformed
  deriving DecidableEq, Repr

/-- What follows zeros and underscores, of which `last` is the last one; it stays
in front of a point, and when nothing follows. -/
def afterZeros? (last : Char) : List Char → Option (List Char)
  | [] => some [last]
  | c :: cs =>
    if c = '0' ∨ c = '_' then afterZeros? c cs
    else if isDigit c ∨ c = '-' then some (c :: cs)
    else if c = '.' then some (last :: c :: cs)
    else none

/-- A numeral without zeros in front. -/
def dropZeros? : List Char → Option (List Char)
  | '0' :: cs => afterZeros? '0' cs
  | c :: cs => if isDigit c ∨ c = '-' then some (c :: cs) else none
  | [] => none

/-- A numeral without a point and at least one zero, only zeros, at its end. -/
def dropZeroFraction (cs : List Char) : List Char :=
  match cs.dropWhile (· ≠ '.') with
  | '.' :: '0' :: zeros => if zeros.all (· == '0') then cs.takeWhile (· ≠ '.') else cs
  | _ => cs

/-- Digits after an optional minus sign. -/
def strict (cs : List Char) : Whole :=
  let (negative, body) := match cs with
    | '-' :: body => (true, body)
    | body => (false, body)
  let ds := body.takeWhile isDigit
  if ds.isEmpty then .malformed
  else if Text.maxDecimalDigits < cs.length - (body.length - ds.length) then .long
  else if ds.length < body.length then .malformed
  else .read (if negative then -(Decimal.ofDigits ds : Int) else Decimal.ofDigits ds)

/-- A whole number. -/
def whole (cs : List Char) : Whole :=
  let unsigned? : Option (List Char) := match bare cs with
    | '+' :: '-' :: _ => none
    | '+' :: cs => some cs
    | cs => some cs
  match (unsigned?.bind dropZeros?).bind fun cs => ungrouped? (dropZeroFraction cs) with
  | some cs => strict cs
  | none => .malformed

/-! ## Other numbers -/

/-- A numeral with a point; without blanks around it, underscores may group its digits. -/
def pointed? (cs : List Char) : Option Float :=
  (Decimal.read? (bare cs)).or ((ungrouped? cs).bind Decimal.read?)

example : ["0-0", "00-12", "+1_000.00", "0.0", "00_7"].map (fun s => whole s.toList) =
    [.read 0, .read (-12), .read 1000, .read 0, .read 7] := by decide +kernel
example : ["-00", "-0_12", "-00.0"].map (fun s => whole s.toList) = [.read 0, .read (-12), .read 0] := by
  decide +kernel
example : ["5.", "-", "--0", "+-1", "1__0", "", "0_"].all fun s => whole s.toList = .malformed := by decide +kernel

end Ecash.Settings.Numeral
