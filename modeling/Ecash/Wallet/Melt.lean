import Ecash.Decimal.Logarithm
import Ecash.Wallet.Receive

/-!
# Melting

Proofs pay an invoice. Whatever they are worth beyond the quoted amount may
come back: blanks of amount zero go along, on which the mint signs the change.
-/
namespace Ecash.Wallet

/-- Blanks for an overpayment: as many as binary denominations of less can need,
at least one.
mirrors engine/client:486 -/
def blankCount (overpaid : Nat) : Nat := max (Decimal.ceilLog2 overpaid) 1

/-- The quote after a melt, and the change. -/
structure Melted where
  quote : MeltQuote
  change : List Proof
  deriving DecidableEq, Repr

/-- Sends a melt, or sends it again, and unblinds the change.
mirrors engine/client:505-528 -/
def completeMelt (S : Suite) (b : MeltBlanks) : Program Melted := do
  let response : MeltQuote ← Program.counted (.melt b.payload)
  if b.outputs.length < response.change.length then
    Program.warn (.changeCount response.change.length b.outputs.length)
    Program.fail .tooMuchChange
  else return ⟨b.quote.mergedWith response, ← toProofs S b.keyset b.outputs response.change⟩

/-- How a melt is done. A policy left out is the default. -/
structure MeltOptions extends Options where
  policy : Option Policy
  onBlanks : Option Listener
  deriving DecidableEq, Repr

/-- Pays a quote with proofs.
mirrors engine/client:464-503 -/
def melt (S : Suite) (w : Wallet) (quote : MeltQuote) (proofs : List Proof) (o : MeltOptions) :
    Program Melted := do
  let k ← w.keyset o.keyset
  let overpaid := Proof.total proofs - quote.amount
  let outputs ← if 0 < overpaid then
      Plan.blanks S w.seeded k (o.policy.getD w.defaultPolicy) (blankCount overpaid.toNat) o.onReserved
    else pure []
  let payload : MeltPayload := ⟨quote.quote, proofs.map (·.prepared false), outputs.map Output.message⟩
  let blanks : MeltBlanks := ⟨payload, outputs, k, quote⟩
  Program.announce .changeOutputsCreated (.blanks blanks) o.onBlanks
  completeMelt S blanks

end Ecash.Wallet
