import Ecash.Decimal.Shortest

/-!
# How doubles are written

The digits are the shortest that read back. `Layout` holds every other choice
of the written form.
-/
namespace Ecash.Decimal

/-- Choices of a written form. `pointFrom` and `pointTo` bound the position of
the decimal point, counted from the first digit, in positional notation. -/
structure Layout where
  pointFrom : Int
  pointTo : Int
  exponentDigits : Nat
  notANumber : String
  infinity : String

/-- Positional from 0.0001 to below 10^16, otherwise an exponent of at least
two digits with its sign; a whole number keeps one zero after the point. -/
def Layout.plain : Layout := ⟨-3, 16, 2, "nan", "inf"⟩

/-- The plain layout with the names that JSON texts use for what is no number. -/
def Layout.json : Layout := { Layout.plain with notANumber := "NaN", infinity := "Infinity" }

/-- Decimal digits of `n`, at least `width` of them. -/
def padded (width n : Nat) : String :=
  let ds := Nat.toDigits 10 n
  String.ofList (List.replicate (width - ds.length) '0' ++ ds)

/-- `0.d₁d₂… · 10 ^ point` in positional notation. -/
def positional (ds : List Char) (point : Int) : String :=
  if point ≤ 0 then "0." ++ String.ofList (List.replicate (-point).toNat '0' ++ ds)
  else
    let n := point.toNat
    let whole := ds.take n ++ List.replicate (n - ds.length) '0'
    let rest := ds.drop n
    String.ofList whole ++ "." ++ String.ofList (if rest.isEmpty then ['0'] else rest)

/-- `0.d₁d₂… · 10 ^ point` with an exponent. -/
def exponential (l : Layout) (ds : List Char) (point : Int) : String :=
  let e := point - 1
  let tail := ds.drop 1
  String.ofList (ds.take 1) ++ (if tail.isEmpty then "" else "." ++ String.ofList tail) ++ "e" ++
    (if e < 0 then "-" else "+") ++ padded l.exponentDigits e.natAbs

/-- The written form of a double. -/
def Layout.text (l : Layout) (x : Float) : String :=
  match parts? x with
  | none => if x.isNaN then l.notANumber else if x < 0 then "-" ++ l.infinity else l.infinity
  | some p =>
    let sign := if p.negative then "-" else ""
    if p.mantissa = 0 then sign ++ "0.0"
    else
      let (d, k) := shortest p
      let all := Nat.toDigits 10 d
      let ds := (all.reverse.dropWhile (· == '0')).reverse
      let point := k + all.length
      sign ++ if l.pointFrom ≤ point ∧ point ≤ l.pointTo then positional ds point
        else exponential l ds point

/-- The plain written form. -/
def text (x : Float) : String := Layout.plain.text x

example : text 30.0 = "30.0" ∧ text 0.1 = "0.1" ∧ text 1e16 = "1e+16" := by decide +kernel
example : text 0.0001 = "0.0001" ∧ text 0.00001 = "1e-05" := by decide +kernel
example : text 1e15 = "1000000000000000.0" ∧ text (-2.5e-7) = "-2.5e-07" := by decide +kernel
example : text 5e-324 = "5e-324" ∧ text 1.7976931348623157e308 = "1.7976931348623157e+308" := by
  decide +kernel

end Ecash.Decimal
