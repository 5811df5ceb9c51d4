import Ecash.Text.Half
import Ecash.Text.Printable

/-!
# Quoted text

A quoted text stands between apostrophes, or between double quotes when it
holds an apostrophe and no double quote. Backslashes and the quote in use are
escaped, line and tab characters by letter, everything without a visible form
by its code in two, four or eight hexadecimal digits. The text is a kept one.
-/
namespace Ecash.Text

/-- `n` in lower-case hexadecimal, at least `width` digits. -/
def hexPadded (width n : Nat) : List Char :=
  let ds := Nat.toDigits 16 n
  List.replicate (width - ds.length) '0' ++ ds

/-- The quote that goes around `cs`. -/
def quoteFor (cs : List Char) : Char :=
  if cs.contains '\'' && !cs.contains '"' then '"' else '\''

/-- One character inside the quote `q`. -/
def quotedChar (q c : Char) : List Char :=
  if c = q ∨ c = '\\' then ['\\', c]
  else if c = '\t' then ['\\', 't']
  else if c = '\n' then ['\\', 'n']
  else if c = '\r' then ['\\', 'r']
  else if isPrintable c then [c]
  else if c.toNat ≤ 0xFF then '\\' :: 'x' :: hexPadded 2 c.toNat
  else if c.toNat ≤ 0xFFFF then '\\' :: 'u' :: hexPadded 4 c.toNat
  else '\\' :: 'U' :: hexPadded 8 c.toNat

/-- One code point of a kept text inside the quote `q`. -/
def quotedPoint (q : Char) (n : Nat) : List Char :=
  if isHalf n then '\\' :: 'u' :: hexPadded 4 n else quotedChar q (Char.ofNat n)

/-- `s` as it is quoted in messages. -/
def quoted (s : String) : String :=
  let cs := s.toList
  let q := quoteFor cs
  String.ofList (q :: (points cs).flatMap (quotedPoint q) ++ [q])

example : quoted "it's" = "\"it's\"" := by decide +kernel
example : quoted "a\nb\\" = "'a\\nb\\\\'" := by decide +kernel

end Ecash.Text
