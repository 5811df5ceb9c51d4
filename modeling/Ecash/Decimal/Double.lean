/-!
# Doubles as exact numbers

A finite double is a whole number times a power of two (`Parts`). `nearest?`
goes the other way: it rounds a quotient to the nearest double, a tie to the
even one. Comparison and rounding to whole numbers are exact.
-/
namespace Ecash.Decimal

-- Powers are core's own, whatever else is imported.
attribute [local instance (high)] instPowNat

/-- The value `± mantissa · 2 ^ exponent`. -/
structure Parts where
  negative : Bool
  mantissa : Nat
  exponent : Int
  deriving DecidableEq, Repr

/-- The exact value of a finite double. -/
def parts? (x : Float) : Option Parts :=
  let bits := x.toBits.toNat
  let biased : Nat := bits / 2 ^ (52 : Nat) % 2048
  let fraction : Nat := bits % 2 ^ (52 : Nat)
  let negative : Bool := bits / 2 ^ (63 : Nat) = 1
  if biased = 2047 then none
  else if biased = 0 then some ⟨negative, fraction, -1074⟩
  else some ⟨negative, fraction + 2 ^ (52 : Nat), biased - 1075⟩

/-- `num / den` rounded to the nearest whole number, a tie to the even one. -/
def roundHalfEven (num den : Nat) : Nat :=
  let k := num / den
  let r := num % den
  if den < 2 * r ∨ (2 * r = den ∧ k % 2 = 1) then k + 1 else k

/-- `num / den / 2 ^ e` as a quotient of whole numbers. -/
def scaled (num den : Nat) (e : Int) : Nat × Nat :=
  if 0 ≤ e then (num, den * 2 ^ e.toNat) else (num * 2 ^ (-e).toNat, den)

/-- The exponent at which `num / den` has 53 binary digits, or the least one. -/
def ulpExponent (num den : Nat) : Int :=
  let d : Int := num.log2 - den.log2
  let s := scaled num den d
  max (if s.1 < s.2 then d - 53 else d - 52) (-1074)

/-- The double nearest to `± num / den`; none if that is beyond the range. -/
def nearest? (negative : Bool) (num den : Nat) : Option Float :=
  let sign := if negative then 2 ^ (63 : Nat) else 0
  if num = 0 then some (Float.ofBits (UInt64.ofNat sign))
  else
    let e := ulpExponent num den
    let s := scaled num den e
    let bits := (e + 1074).toNat * 2 ^ (52 : Nat) + roundHalfEven s.1 s.2
    if 2047 * 2 ^ (52 : Nat) ≤ bits then none else some (Float.ofBits (UInt64.ofNat (bits + sign)))

/-- The double nearest to a whole number. -/
def ofInt? (n : Int) : Option Float := nearest? (n < 0) n.natAbs 1

/-- The double nearest to `± digits · 10 ^ exponent`. -/
def ofScientific? (negative : Bool) (digits : Nat) (exponent : Int) : Option Float :=
  if 0 ≤ exponent then nearest? negative (digits * 10 ^ exponent.toNat) 1
  else nearest? negative digits (10 ^ (-exponent).toNat)

/-- A finite double as a quotient, its sign included. -/
def ratio? (x : Float) : Option (Int × Nat) :=
  (parts? x).map fun p =>
    let s := scaled p.mantissa 1 (-p.exponent)
    (if p.negative then -(s.1 : Int) else s.1, s.2)

/-- Least whole number that is not below `x`. -/
def ceil? (x : Float) : Option Int := (ratio? x).map fun (n, d) => -((-n).fdiv d)

/-- `x` without its fraction. -/
def truncate? (x : Float) : Option Int := (ratio? x).map fun (n, d) => n.tdiv d

/-- A finite double that is a whole number. -/
def whole? (x : Float) : Option Int :=
  (ratio? x).bind fun (n, d) => if n % d = 0 then some (n / d) else none

/-- Exactly greater than a whole number. -/
def exceeds (x : Float) (n : Int) : Bool :=
  match ceil? x with
  | some c => n < c
  | none => 0 < x

example : ceil? 2.5 = some 3 ∧ ceil? (-2.5) = some (-2) ∧ truncate? (-8.9) = some (-8) := by decide +kernel
example : ofInt? (2 ^ 53 + 1) = some 9007199254740992.0 := by decide +kernel
example : ofScientific? false 1 (-1) = some 0.1 := by decide +kernel
example : ofInt? (10 ^ 309) = none := by decide +kernel
example : (nearest? false 1 (2 ^ 1075)).map Float.toBits = some 0 := by decide +kernel
example : (nearest? false 3 (2 ^ 1075)).map Float.toBits = some 2 := by decide +kernel

end Ecash.Decimal
