import Ecash.Wallet.Send

/-!
# Receiving and minting

Both end with new proofs for outputs of a configured amount: `receive` swaps a
token for them, `mint` claims a paid quote.
-/
namespace Ecash.Wallet

/-- How new proofs are made. A policy left out is the default. -/
structure NewProofs extends Options where
  policy : Option Policy
  /-- The amounts of the proofs that the wallet holds. -/
  held : List Int
  deriving DecidableEq, Repr

/-- Outputs for an amount. -/
def newOutputs (S : Suite) (w : Wallet) (k : Keyset) (amount : Int) (o : NewProofs) :
    Program (List Output) := do
  let spec ← w.configure k ⟨amount, o.policy.getD w.defaultPolicy, false, o.held⟩
  Plan.finish S w.seeded k spec o.onReserved

/-- Swaps a token for new proofs.
mirrors engine/client:363-407 -/
def receive (S : Suite) (w : Wallet) (t : Token) (o : NewProofs) : Program (List Proof) := do
  if sanitizeUrl t.mint ≠ w.mintUrl then Program.fail .foreignMint
  else if t.unit ≠ w.unit then Program.fail .foreignUnit
  else if t.amount = 0 then return []
  else
    let k ← w.keyset o.keyset
    let net := t.amount - (← w.feeForProofs t.proofs)
    if net ≤ 0 then Program.fail (.feeExceedsToken t.amount)
    else
      let outputs ← w.newOutputs S k net o
      return (← swap S k t.proofs outputs []).keep

/-- Proofs from signatures, one for each output. -/
def toProofs (S : Suite) (k : Keyset) (outputs : List Output) (signatures : List BlindedSignature) :
    Outcome (List Proof) :=
  (outputs.zip signatures).mapM fun (o, s) => o.toProof S s k

/-- New proofs against a paid quote.
mirrors engine/client:418-454 -/
def mint (S : Suite) (w : Wallet) (amount : Int) (quote : Json) (o : NewProofs) :
    Program (List Proof) := do
  if amount ≤ 0 then Program.fail .mintAmountNotPositive
  else
    let k ← w.keyset o.keyset
    let outputs ← w.newOutputs S k amount o
    let signatures : List BlindedSignature ←
      Program.counted (.mint ⟨quote, outputs.map Output.message⟩)
    if signatures.length ≠ outputs.length then
      Program.warn (.signatureCount signatures.length outputs.length)
      Program.fail .signatureCount
    else toProofs S k outputs signatures

end Ecash.Wallet
