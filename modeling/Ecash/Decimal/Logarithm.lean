import Ecash.Decimal.Double

/-!
# Logarithms rounded up

The least whole number that is not below the binary logarithm of a whole
number, the logarithm taken as a double. Just above a large power of two the
double cannot tell the logarithm from the exponent.
-/
namespace Ecash.Decimal

-- Powers are core's own, whatever else is imported.
attribute [local instance (high)] instPowNat

/-- `n` rounded to 53 binary digits, a tie to the even one. -/
def round53 (n : Nat) : Nat :=
  let shift := n.log2 - 52
  roundHalfEven n (2 ^ shift) * 2 ^ shift

/-- The logarithm of `2 ^ k + excess` rounds to `k`: to first order it is
`k + excess / (2 ^ k · ln 2)`, and half a unit in the last place of `k` is
`2 ^ (log2 k - 53)`. The fraction is `1 / ln 2` to sixteen places. -/
def hidden (k excess : Nat) : Bool :=
  excess * 2 ^ (53 : Nat) * 14426950408889634 ≤ 2 ^ k * 2 ^ k.log2 * 10000000000000000

/-- The logarithm of a positive number, rounded up. -/
def ceilLog2 (n : Nat) : Nat :=
  let m := round53 n
  let k := m.log2
  if hidden k (m - 2 ^ k) then k else k + 1

example : ceilLog2 1 = 0 ∧ ceilLog2 2 = 1 ∧ ceilLog2 3 = 2 ∧ ceilLog2 1024 = 10 := by decide +kernel
example : ceilLog2 1025 = 11 ∧ ceilLog2 (2 ^ 48 + 1) = 49 ∧ ceilLog2 (2 ^ 49 + 1) = 49 := by
  decide +kernel

end Ecash.Decimal
