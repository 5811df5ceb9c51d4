import Ecash.Decimal.Double

/-!
# The shortest decimal that reads back

A double stands for every real that rounds to it: an interval around its
value. `shortest` finds the fewest decimal digits of a number in that
interval and, of two such numbers, the nearer one.
-/
namespace Ecash.Decimal

-- Powers are core's own, whatever else is imported.
attribute [local instance (high)] instPowNat

/-- Number of decimal digits of `n`; zero has none. -/
def digitCount (n : Nat) : Nat := if n = 0 then 0 else (Nat.toDigits 10 n).length

/-- The `p` with `10 ^ (p - 1) ≤ num / den < 10 ^ p`. -/
def magnitude (num den : Nat) : Int :=
  if den ≤ num then digitCount (num / den)
  else 1 - digitCount ((den + num - 1) / num - 1)

/-- `num / den / 10 ^ k` as a quotient of whole numbers. -/
def scaledTen (num den : Nat) (k : Int) : Nat × Nat :=
  if 0 ≤ k then (num, den * 10 ^ k.toNat) else (num * 10 ^ (-k).toNat, den)

/-- Bounds of the reals that round to `mantissa · 2 ^ exponent`, over four
times its denominator, and whether the bounds belong to them. -/
structure Interval where
  low : Nat
  high : Nat
  den : Nat
  closed : Bool

/-- The reals that round to a positive double. -/
def interval (p : Parts) : Interval :=
  let s := scaled p.mantissa 1 (-p.exponent)
  let unit := (scaled 1 1 (-p.exponent)).1
  let below := if p.mantissa = 2 ^ (52 : Nat) ∧ -1074 < p.exponent then 1 else 2
  ⟨4 * s.1 - below * unit, 4 * s.1 + 2 * unit, 4 * s.2, p.mantissa % 2 = 0⟩

/-- `d · 10 ^ k` lies in the interval. -/
def Interval.holds (i : Interval) (d : Nat) (k : Int) : Bool :=
  let s := scaledTen 1 1 (-k)
  let x := d * s.1 * i.den
  let low := i.low * s.2
  let high := i.high * s.2
  (low < x && x < high) || (i.closed && (x == low || x == high))

/-- The number of the grid `10 ^ k` nearest to `num / den` inside the interval. -/
def onGrid? (num den : Nat) (i : Interval) (k : Int) : Option Nat :=
  let s := scaledTen num den k
  let below := s.1 / s.2
  let low := i.holds below k
  let high := i.holds (below + 1) k
  if low && high then some (roundHalfEven s.1 s.2)
  else if low then some below
  else if high then some (below + 1)
  else none

/-- First hit on the grids of `n` digits and more, at most `fuel` of them. -/
def search (num den : Nat) (i : Interval) (p : Int) : (fuel n : Nat) → Nat × Int
  | 0, n => ((scaledTen num den (p - n)).1, p - n)
  | fuel + 1, n =>
    match onGrid? num den i (p - n) with
    | some d => (d, p - n)
    | none => search num den i p fuel (n + 1)

/-- Digits and power of ten of the shortest decimal that reads back as the
positive double `p`. -/
def shortest (p : Parts) : Nat × Int :=
  let s := scaled p.mantissa 1 (-p.exponent)
  search s.1 s.2 (interval p) (magnitude s.1 s.2) 17 1

end Ecash.Decimal
