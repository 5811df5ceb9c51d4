import Ecash.Payload

/-!
# Swaps

The outputs of a swap go out sorted by amount, so that their order does not
tell change from payment. `Swap` keeps the permutation; `unpack` undoes it when
the signatures come back.
-/
namespace Ecash

/-- An assembled swap. `outputs` are in planning order, first those to keep;
`order` holds the planning position for each position on the wire. -/
structure Swap where
  payload : SwapPayload
  outputs : List Output
  order : List Nat
  keepCount : Nat
  deriving DecidableEq, Repr

namespace Swap

/-- Positions by ascending amount, equal amounts in their old order. -/
def wireOrder (outputs : List Output) : List Nat :=
  (outputs.zipIdx.mergeSort fun a b => decide (a.1.message.amount ≤ b.1.message.amount)).map Prod.snd

/-- For each position on the wire, whether the output there is kept. -/
def keepVector (t : Swap) : List Bool := t.order.map fun i => decide (i < t.keepCount)

/-- Builds the swap of inputs for outputs.
mirrors engine/assembler:65-95 -/
def assemble (inputs : List Proof) (keep send : List Output) : Swap :=
  let outputs := keep ++ send
  let order := wireOrder outputs
  { payload := ⟨inputs.map (·.prepared false), (order.filterMap (outputs[·]?)).map Output.message⟩
    outputs, order, keepCount := keep.length }

variable (S : Suite)

/-- The proof for each position on the wire, with its planning position. -/
def unblind (k : Keyset) (outputs : List Output) :
    (order : List Nat) → List BlindedSignature → Outcome (List (Nat × Proof))
  | i :: order, s :: signatures => do
    match outputs[i]? with
    | none => unblind k outputs order signatures
    | some o =>
      let q ← o.toProof S s k
      return (i, q) :: (← unblind k outputs order signatures)
  | _, _ => return []

/-- Puts what was found at wire positions back into planning order. -/
def inPlanningOrder (n : Nat) (found : List (Nat × Proof)) : List Proof :=
  (List.range n).filterMap fun i => found.lookup i

/-- Kept and sent proofs from the mint's signatures.
mirrors engine/assembler:45-62 -/
def unpack (t : Swap) (signatures : List BlindedSignature) (k : Keyset) : Outcome Partition := do
  if signatures.length ≠ t.order.length then
    refuse (.signaturesForOutputs signatures.length t.order.length)
  else
    let proofs := inPlanningOrder t.outputs.length (← unblind S k t.outputs t.order signatures)
    return ⟨proofs.take t.keepCount, proofs.drop t.keepCount⟩

end Swap

end Ecash
