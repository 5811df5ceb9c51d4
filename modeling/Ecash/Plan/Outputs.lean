import Ecash.Plan.Spec
import Ecash.Program

/-!
# From groups to outputs

`assign` reserves one block of counters for all groups of an operation that
wait for counters, and cuts it into consecutive slices. `build` makes the
outputs of a group. `plan` does everything for one group.
-/
namespace Ecash.Plan

-- Sums are core's own, whatever else is imported.
attribute [local instance (high)] Zero.ofOfNat0

/-! ## Counters -/

/-- Counters that the groups wait for together. -/
def countersNeeded (specs : List OutputSpec) : Nat := (specs.map OutputSpec.countersNeeded).sum

/-- Gives each waiting group its slice, from `cursor` on. -/
def slices : (cursor : Int) → List OutputSpec → List OutputSpec
  | _, [] => []
  | cursor, s :: rest =>
    if s.countersNeeded = 0 then s :: slices cursor rest
    else { s with counter := some cursor } :: slices (cursor + s.countersNeeded) rest

/-- Reserves counters for the waiting groups and announces the reservation.
mirrors engine/planner:223-257 -/
def assign (keyset : Json) (specs : List OutputSpec) (own : Option Listener) :
    Program (List OutputSpec × Option Reservation) := do
  let n := countersNeeded specs
  if n = 0 then return (specs, none)
  else
    let block ← Program.reserve keyset n
    let used : Reservation := ⟨keyset, block⟩
    Program.record (.countersReserved keyset block.count)
    Program.announce .countersReserved (.reserved used) own
    return (slices block.start specs, some used)

/-! ## Outputs -/

variable (S : Suite)

/-- An output with a given secret and a random factor. -/
def blinded (keyset : Json) (secret : String) (amount : Int) : Program Output := do
  Output.ofSecret S amount keyset (Bytes.ofText secret) (← Program.freshFactor)

def random (keyset : Json) (amount : Int) : Program Output := do
  blinded S keyset (← Program.freshSecret) amount

def locked (keyset : Json) (options : LockOptions) (amount : Int) : Program Output := do
  match options.pubkeys with
  | [] => Program.fail .lockKeyMissing
  | primary :: _ => blinded S keyset (options.secretText primary (← Program.freshSecret)) amount

/-- The output for an index of the seed. The hexadecimal form of the derived
bytes is the secret. -/
def derived (keyset : Json) (use : IndexUse) (amount counter : Int) : Program Output := do
  let (secret, factor) ← Program.derive keyset counter use
  Output.ofSecret S amount keyset (Bytes.ofText secret.hex) factor

/-- Outputs for consecutive indices.
mirrors models/output_data:149-160 -/
def deriveAll (keyset : Json) (use : IndexUse) : (counter : Int) → List Int → Program (List Output)
  | _, [] => return []
  | counter, amount :: rest => do
    let o ← derived S keyset use amount counter
    return o :: (← deriveAll keyset use (counter + 1) rest)

/-- One output a part, as the policy says.
mirrors engine/planner:281-296 -/
def outputs (seeded : Bool) (k : Keyset) (policy : Policy) (counter : Option Int) (parts : List Int) :
    Program (List Output) :=
  match policy with
  | .random _ => parts.mapM (random S k.id)
  | .locked options _ => parts.mapM (locked S k.id options)
  | .factory number _ => parts.mapM fun amount => Program.produce number amount k
  | .custom data => return data
  | .deterministic .. =>
    match counter with
    | none => Program.fail .counterMissing
    | some start =>
      if seeded then deriveAll S k.id (if policy.pinned?.isSome then .pinned else .reserved) start parts
      else Program.fail .seedMissing

/-- The outputs of a group.
mirrors engine/planner:259-296 -/
def build (seeded : Bool) (k : Keyset) (s : OutputSpec) : Program (List Output) := do
  if s.amount < 0 then
    Program.warn (.negativeAmount s.amount)
    return []
  else
    match s.policy with
    | .custom data => return data
    | policy =>
      let parts ← if s.denominations.isEmpty then Amount.canonical s.amount k.amounts
        else do
          checkSum s.denominations s.amount
          pure s.denominations
      if parts.isEmpty then return []
      else outputs S seeded k policy s.counter parts

/-! ## One group -/

/-- Assigns counters to one group and builds it. -/
def finish (seeded : Bool) (k : Keyset) (s : OutputSpec) (own : Option Listener) :
    Program (List Output) := do
  let (specs, _) ← assign k.id [s] own
  return (← specs.mapM (build S seeded k)).flatten

/-- The outputs for a request; none for an amount that is not positive.
mirrors engine/planner:112-136 -/
def plan (settings : Settings.Output) (seeded : Bool) (k : Keyset) (r : Request)
    (own : Option Listener) : Program (List Output) := do
  if r.amount ≤ 0 then
    Program.warn (.nothingToPlan r.amount)
    return []
  else finish S seeded k (← configure settings seeded k r) own

/-- `count` outputs of amount zero, for which the mint chooses the amounts.
mirrors engine/planner:138-158 -/
def blanks (seeded : Bool) (k : Keyset) (policy : Policy) (count : Int) (own : Option Listener) :
    Program (List Output) := do
  match policy with
  | .custom _ => Program.fail .customForChange
  | policy =>
    if count ≤ 0 then return []
    else
      policy.check seeded
      finish S seeded k ⟨0, policy, List.replicate count.toNat 0, policy.pinned?⟩ own

end Ecash.Plan
