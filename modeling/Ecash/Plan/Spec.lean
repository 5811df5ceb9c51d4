import Ecash.Amount.Split
import Ecash.Fee
import Ecash.Plan.Policy
import Ecash.Settings.Wallet

/-!
# Configured groups of outputs

`configure` turns an amount and a policy into an `OutputSpec` with its
denominations. With fees included it adds outputs that pay for spending the
group later; as these cost a fee themselves, the fee is raised until it covers
its own outputs too.
-/
namespace Ecash

-- Sums are core's own, whatever else is imported.
attribute [local instance (high)] Zero.ofOfNat0

/-- A group of outputs. A deterministic group without a counter still waits for
one; a custom group has no denominations. -/
structure OutputSpec where
  amount : Int
  policy : Policy
  denominations : List Int
  counter : Option Int
  deriving DecidableEq, Repr

/-- Counters that the group waits for.
mirrors engine/planner:74-79 -/
def OutputSpec.countersNeeded (s : OutputSpec) : Nat :=
  if s.policy.isDeterministic && s.counter.isNone then s.denominations.length else 0

namespace Plan

/-- Parts must add up to their amount.
mirrors engine/planner:328-332 -/
def checkSum (parts : List Int) (amount : Int) : Outcome Unit :=
  if parts.sum = amount then .ok () else refuse (.denominationsDiffer parts.sum amount)

/-- Parts of the first fee, from `fee` on and at most `rounds` higher, that pays
for `n` inputs and for its own parts. -/
def raiseFee (keys : List Int) (ppk : Int) (n : Nat) (rounds : Nat) (fee : Int) :
    Outcome (List Int) := do
  let parts ← Amount.canonical fee keys
  if Fee.forInputs (n + parts.length) ppk ≤ fee then return parts
  else
    match rounds with
    | 0 => refuse .feeDiverges
    | rounds + 1 => raiseFee keys ppk n rounds (fee + 1)

/-- Parts of the fee for spending `n` outputs together with these parts.
mirrors engine/planner:308-319 -/
def feeParts (k : Keyset) (rounds n : Nat) : Outcome (List Int) :=
  raiseFee k.amounts k.inputFeePpk n rounds (Fee.forInputs n k.inputFeePpk)

/-- Denominations for an amount: those asked for, or a split that makes up for
what the wallet is short of, given the amounts it holds. -/
def denominations (k : Keyset) (target : Nat) (amount : Int) (asked held : List Int) :
    Outcome (List Int) :=
  if !asked.isEmpty then do
    checkSum asked amount
    return asked
  else if held.isEmpty then Amount.canonical amount k.amounts
  else Amount.keepAmounts held amount k.amounts target

/-- What is asked of a group of outputs. -/
structure Request where
  amount : Int
  policy : Policy
  /-- Adds outputs for the fee of spending the group. -/
  includeFees : Bool
  /-- The amounts of the proofs that the wallet holds. -/
  held : List Int
  deriving DecidableEq, Repr

/-- The group for a request; its amount includes the added fee.
mirrors engine/planner:160-221 -/
def configure (settings : Settings.Output) (seeded : Bool) (k : Keyset) (r : Request) :
    Outcome OutputSpec :=
  match r.policy with
  | .custom data =>
    if r.includeFees then refuse .customWithFees
    else if Output.total data ≠ r.amount then
      refuse (.customTotalDiffers (Output.total data) r.amount)
    else .ok ⟨r.amount, r.policy, [], none⟩
  | policy => do
    policy.check seeded
    let parts ← denominations k settings.denominationTarget r.amount policy.denominations r.held
    let fee ← if r.includeFees then feeParts k settings.maxFeeRounds parts.length else pure []
    return ⟨r.amount + fee.sum, policy, parts ++ fee, policy.pinned?⟩

end Plan

end Ecash
