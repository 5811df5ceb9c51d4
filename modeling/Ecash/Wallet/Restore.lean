import Ecash.Wallet.Basic

/-!
# Restoring

The outputs of a range of counters are made again, and the mint is asked which
of them it has signed. `batchRestore` goes through range after range until
enough of them in a row have come back empty.
-/
namespace Ecash.Wallet

-- Powers are core's own, whatever else is imported.
attribute [local instance (high)] instPowNat

/-- Recovered proofs, and the highest counter with a signature. -/
structure Restored where
  proofs : List Proof
  last : Option Int
  deriving DecidableEq, Repr

def Restored.none : Restored := ⟨[], .none⟩

/-- Signatures by blinded point; of two for one point the later counts. -/
def signaturesByPoint (known : List BlindedMessage) (signatures : List BlindedSignature) :
    Outcome (List (Json × BlindedSignature)) :=
  if known.all (·.b.isKey) then .ok ((known.map BlindedMessage.b).zip signatures).reverse
  else .error .wrongKind

/-- The proofs of those outputs that have a signature; `counter` is the counter
of the first output. -/
def recover (S : Suite) (k : Keyset) (signed : List (Json × BlindedSignature)) :
    (counter : Int) → List Output → Restored → Outcome Restored
  | _, [], found => .ok found
  | counter, o :: rest, found =>
    match signed.lookup o.message.b with
    | .none => recover S k signed (counter + 1) rest found
    | some s => do
      let q ← o.toProof S s k
      recover S k signed (counter + 1) rest ⟨found.proofs ++ [q], some counter⟩

/-- Restores the counters from `start` on, `count` of them.
mirrors engine/client:534-560 -/
def restore (S : Suite) (w : Wallet) (start count : Int) (id : Json) : Program Restored := do
  if !w.seeded then Program.fail .seedMissing
  else
    let k ← w.keyset id
    let outputs ← Plan.deriveAll S k.id .recovery start (List.replicate count.toNat 0)
    let answer : List BlindedMessage × List BlindedSignature ←
      Program.counted (.restore (outputs.map Output.message))
    if answer.1.length ≠ answer.2.length then
      Program.fail (.signaturesForRestored answer.2.length answer.1.length)
    else
      recover S k (← signaturesByPoint answer.1 answer.2) start outputs .none

/-- Empty batches in a row that end a restore: the quotient of the two limits as
a double, rounded up. -/
def emptyBatches (gapLimit batchSize : Int) : Outcome Int :=
  let negative := (gapLimit < 0) != (batchSize < 0)
  match (Decimal.nearest? negative gapLimit.natAbs batchSize.natAbs).bind Decimal.ceil? with
  | some n => .ok n
  | .none => .error .tooLarge

/-- Goes on batch by batch, from `counter` on, until `required` batches in a row
have come back empty. Counters end at 2^64, so at most `batches` can follow.
mirrors engine/client:579-589 -/
def scan (S : Suite) (w : Wallet) (id : Json) (batchSize required : Int) :
    (batches : Nat) → (counter empty : Int) → Restored → Program Restored
  | 0, _, empty, found =>
    if required ≤ empty then return found else Program.ofOutcome (.error .tooLarge)
  | n + 1, counter, empty, found => do
    if required ≤ empty then return found
    else
      let batch ← w.restore S counter batchSize id
      if batch.proofs.isEmpty then
        scan S w id batchSize required n (counter + batchSize) (empty + 1) found
      else
        scan S w id batchSize required n (counter + batchSize) 0
          ⟨found.proofs ++ batch.proofs, batch.last⟩

/-- A bound on the batches that a scan can take. -/
def batchBound (counter batchSize required : Int) : Nat :=
  (2 ^ (64 : Nat) - counter).toNat / batchSize.toNat + required.toNat + 1

/-- Moves the counter source past a restored counter, if it can be moved.
mirrors engine/client:591-599 -/
def skipRestored (keyset : Json) (last : Int) : Program Unit := do
  match ← (Program.advance keyset (last + 1)).attempt with
  | .ok _ => return ()
  | .error e =>
    if e.ofKind [.capability] then Program.warn (.cannotAdvance keyset last)
    else Program.ofOutcome (.error e)

/-- Zero counts as not given. -/
def orSetting (given : Option Int) (setting : Nat) : Int :=
  match given with
  | some n => if n = 0 then setting else n
  | .none => setting

/-- Restores everything from `counter` on, and makes sure that the recovered
counters are not handed out again.
mirrors engine/client:562-601 -/
def batchRestore (S : Suite) (w : Wallet) (gapLimit batchSize : Option Int) (counter : Int) (id : Json) :
    Program Restored := do
  let gap := orSetting gapLimit w.settings.restore.gapLimit
  let size := orSetting batchSize w.settings.restore.batchSize
  let required ← emptyBatches gap size
  let k ← w.keyset id
  let found ← scan S w k.id size required (batchBound counter size required) counter 0 .none
  match found.last with
  | .none => return found
  | some last =>
    skipRestored k.id last
    return found

end Ecash.Wallet
