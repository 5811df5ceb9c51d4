import Ecash.Keyset
import Ecash.Proof

/-!
# Fees

A mint charges for every input a number of thousandths of a unit (ppk), and
rounds the sum of a transaction up to a whole unit.
-/
namespace Ecash.Fee

-- Sums are core's own, whatever else is imported.
attribute [local instance (high)] Zero.ofOfNat0

/-- Whole units for a fee in thousandths, rounded up.
mirrors engine/fees:20-22 -/
def ceilPpk (ppk : Int) : Int := -((-ppk).fdiv 1000)

/-- Fee for `n` inputs of one rate; never negative.
mirrors engine/fees:25-27 -/
def forInputs (n ppk : Int) : Int := max ((n * ppk + 999).fdiv 1000) 0

/-- The rate of a keyset.
mirrors engine/fees:36-48 -/
def ppk (chain : KeyChain) (id : Json) : Outcome Int :=
  if !id.truthy then refuse (.noFee id false)
  else
    match chain.get id with
    | .ok k => .ok k.inputFeePpk
    | .error (.wallet e) => refuse (if e.kind = .keyset then .noFee id true else e)
    | .error e => .error e

/-- The rate that the mint charges for a proof. -/
def proofPpk (chain : KeyChain) (q : Proof) : Outcome Int := ppk chain q.keyset

/-- Fee for spending proofs together. -/
def forProofs (chain : KeyChain) (qs : List Proof) : Outcome Int := do
  return ceilPpk (← qs.mapM (proofPpk chain)).sum

/-- Fee for spending `n` proofs of a keyset. -/
def forKeyset (chain : KeyChain) (n : Int) (id : Json) : Outcome Int := do
  return forInputs n (← ppk chain id)

end Ecash.Fee
