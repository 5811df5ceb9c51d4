import Ecash.Wallet.Basic

/-!
# Sending

`sendOffline` hands over proofs as they are. `send` does so when an exact
selection exists and nothing speaks for new outputs; otherwise it swaps the
selected proofs for outputs to send and change.
-/
namespace Ecash.Wallet

/-- What a send without a swap may do. -/
structure OfflineOptions where
  includeFees : Bool
  exact : Bool
  /-- Only proofs with evidence are sent, and it goes with them. -/
  requireDleq : Bool
  deriving DecidableEq, Repr

/-- Sends proofs as they are.
mirrors engine/client:216-246 -/
def sendOffline (w : Wallet) (amount : Int) (proofs : List Proof) (o : OfflineOptions) :
    Program Partition := do
  let proofs := if o.requireDleq then proofs.filter (·.dleq.isSome) else proofs
  if Proof.total proofs < amount then Program.fail .notEnoughFunds
  else
    let selected ← w.select ⟨amount, o.includeFees, o.exact⟩ proofs
    return { selected with send := selected.send.map (·.prepared o.requireDleq) }

/-- What a send with or without a swap does. A policy left out is the default. -/
structure SendOptions extends Options where
  includeFees : Bool
  sendPolicy : Option Policy
  keepPolicy : Option Policy
  deriving DecidableEq, Repr

/-- Nothing speaks for new outputs. -/
def mayStayOffline (w : Wallet) (o : SendOptions) : Bool :=
  !o.keyset.truthy && !w.defaultPolicy.isDeterministic
    && (o.sendPolicy.getD w.defaultPolicy).isPlain && (o.keepPolicy.getD w.defaultPolicy).isPlain

/-- The offline selection with the fee that the receiver will pay. -/
def offlineWithFee (w : Wallet) (amount : Int) (proofs : List Proof) (includeFees : Bool) :
    Program (Partition × Int) := do
  let found ← w.sendOffline amount proofs ⟨includeFees, true, false⟩
  let fee ← if includeFees then w.feeForProofs found.send else pure 0
  return (found, fee)

/-- An offline selection of exactly the amount and the fee; a refusal means
that there is none.
mirrors engine/client:326-357 -/
def trySendOffline (w : Wallet) (amount : Int) (proofs : List Proof) (o : SendOptions) :
    Program (Option Partition) := do
  if !w.mayStayOffline o then return none
  match ← (w.offlineWithFee amount proofs o.includeFees).attempt with
  | .ok (found, fee) =>
    return if !found.send.isEmpty ∧ Proof.total found.send = amount + fee then some found else none
  | .error (.wallet _) => return none
  | .error e => Program.ofOutcome (.error e)

/-- Swaps inputs for outputs and unblinds the mint's signatures. -/
def swap (S : Suite) (k : Keyset) (inputs : List Proof) (keep send : List Output) :
    Program Partition := do
  let t := Swap.assemble inputs keep send
  let signatures : List BlindedSignature ← Program.counted (.swap t.payload)
  t.unpack S signatures k

/-- Sends by a swap: selected proofs go in, outputs of the amount and change
come out.
mirrors engine/client:284-324 -/
def sendBySwap (S : Suite) (w : Wallet) (amount : Int) (proofs : List Proof) (o : SendOptions) :
    Program Partition := do
  let k ← w.keyset o.keyset
  let target ← w.configure k ⟨amount, o.sendPolicy.getD w.defaultPolicy, o.includeFees, []⟩
  let selected ← w.select ⟨target.amount, true, false⟩ proofs
  if selected.send.isEmpty then Program.fail .notEnoughFunds
  else
    let fee ← w.feeForProofs selected.send
    let change := Proof.total selected.send - fee - target.amount
    if change < 0 then Program.fail .notEnoughForSwap
    else
      let rest ← w.configure k
        ⟨change, o.keepPolicy.getD w.defaultPolicy, false, selected.keep.map Proof.amount⟩
      let (specs, _) ← Plan.assign k.id [target, rest] o.onReserved
      let outputs ← specs.mapM (Plan.build S w.seeded k)
      let swapped ← swap S k selected.send outputs.tail.flatten (outputs.headD [])
      return ⟨swapped.keep ++ selected.keep, swapped.send⟩

/-- Divides proofs so that the amount can be handed over.
mirrors engine/client:248-324 -/
def send (S : Suite) (w : Wallet) (amount : Int) (proofs : List Proof) (o : SendOptions) :
    Program Partition := do
  match ← w.trySendOffline amount proofs o with
  | some found => return found
  | none => w.sendBySwap S amount proofs o

end Ecash.Wallet
