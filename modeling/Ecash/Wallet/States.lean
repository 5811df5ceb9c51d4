import Ecash.Wallet.Basic

/-!
# Spend states

The mint is asked about proofs by the points of their secrets.
-/
namespace Ecash.Wallet

/-- The point of a proof's secret. -/
def proofPoint (S : Suite) (q : Proof) : Outcome String :=
  match q.secret with
  | .str s => do S.pointHex (← S.hashToCurve (← Bytes.encode s))
  | _ => .error .notObject

/-- States by point; of two for one point the later counts. -/
def statesByPoint (states : List ProofState) : Outcome (List (Json × ProofState)) :=
  if states.all (·.y.isKey) then .ok (states.map fun s => (s.y, s)).reverse else .error .wrongKind

/-- The state of each proof, in their order.
mirrors engine/client:603-617 -/
def checkStates (S : Suite) (proofs : List Proof) : Program (List ProofState) := do
  let ys ← (proofs.mapM (proofPoint S) : Outcome (List String))
  let states : List ProofState ← Program.counted (.checkState ys)
  let known ← statesByPoint states
  match ys.filter fun y => (known.lookup (.str y)).isNone with
  | [] => return ys.filterMap fun y => known.lookup (.str y)
  | missing => Program.fail (.statesMissing missing.length)

end Ecash.Wallet
