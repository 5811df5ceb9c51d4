import Ecash.Fee
import Ecash.Payload

/-!
# A mint in memory

A mint that signs with known keys and keeps its books, for running wallets
without a network. `Behaviour` makes it err in the ways that a wallet has to
cope with: it can refuse calls, lose or repeat signatures, sign for other
amounts, and leave out or reorder answers.
-/
namespace Ecash.Mint

-- Sums are core's own, whatever else is imported.
attribute [local instance (high)] Zero.ofOfNat0

/-- A published keyset and the scalars behind its keys. -/
structure Signer where
  keyset : Keyset
  scalars : List (Int × Int)
  /-- Leaves the keyset out when keys are asked for. -/
  hidesKeys : Bool
  deriving DecidableEq, Repr

/-- How the mint departs from what a wallet expects. -/
structure Behaviour where
  /-- Refusals by operation. -/
  refusals : List (String × WalletError)
  /-- Signatures lost from the end of an answer. -/
  dropped : Nat
  /-- Repetitions of the first signature at the end of an answer. -/
  repeated : Nat
  /-- Amounts that are shown in place of others. -/
  shownAs : List (Int × Int)
  /-- Signatures carry evidence. -/
  givesDleq : Bool
  /-- Members of the answer to a melt. -/
  melt : List (String × Json)
  /-- Amounts of the change of a melt. -/
  change : List Int
  restoreDropped : Nat
  restoreReversed : Bool
  statesOmitted : Nat
  statesReversed : Bool
  /-- Members of new quotes. -/
  mintQuote : List (String × Json)
  meltQuote : List (String × Json)
  deriving DecidableEq, Repr

/-- Nothing out of the ordinary. -/
def Behaviour.honest : Behaviour := ⟨[], 0, 0, [], false, [], [], 0, false, 0, false, [], []⟩

/-- A mint: its keysets, what it knows about inputs by the point of their
secret, and what it has signed by blinded point. -/
structure Simulated where
  signers : List Signer
  behaviour : Behaviour
  states : List (String × SpendState)
  issued : List (Json × BlindedSignature)
  deriving DecidableEq, Repr

namespace Simulated

variable (S : Suite)

/-- A mint that has seen nothing yet. -/
def fresh (signers : List Signer) : Simulated := ⟨signers, .honest, [], []⟩

def signer? (m : Simulated) (id : Json) : Option Signer := m.signers.find? (·.keyset.id.same id)

/-- The scalar for an amount of a keyset. -/
def scalar? (m : Simulated) (id : Json) (amount : Int) : Option Int :=
  (m.signer? id).bind fun s => s.scalars.lookup amount

/-! ## Signing -/

/-- A blinded point times the key for an amount. -/
def signPoint (m : Simulated) (id : Json) (amount : Int) (b : Json) : Outcome String :=
  match m.scalar? id amount with
  | none => refuse (.mint s!"mint has no key for amount {amount}" (.int 400) .null)
  | some k => do S.pointHex (S.mul k (← Output.readPoint S b))

/-- Evidence for a signature, in name only. -/
def dleqFor (m : Simulated) (amount : Int) : Option Dleq :=
  if m.behaviour.givesDleq then some ⟨.str s!"e{amount}", .str s!"s{amount}", .null⟩ else none

/-- Signs a message for an amount, and remembers it. -/
def sign (m : Simulated) (o : BlindedMessage) (amount : Int) : Outcome BlindedSignature × Simulated :=
  match m.signPoint S o.keyset amount o.b with
  | .error e => (.error e, m)
  | .ok c =>
    let shown := (m.behaviour.shownAs.lookup amount).getD amount
    let s : BlindedSignature := ⟨shown, o.keyset, .str c, m.dleqFor amount⟩
    (.ok s, { m with issued := (o.b, s) :: m.issued })

/-- Signs message after message; a refusal ends it. -/
def signAll (m : Simulated) : List (BlindedMessage × Int) → Outcome (List BlindedSignature) × Simulated
  | [] => (.ok [], m)
  | (o, amount) :: rest =>
    match m.sign S o amount with
    | (.error e, m) => (.error e, m)
    | (.ok s, m) =>
      let (more, m) := m.signAll rest
      (more.map (s :: ·), m)

/-- An answer with signatures lost and repeated. -/
def Behaviour.garble (b : Behaviour) (ss : List BlindedSignature) : List BlindedSignature :=
  let left := ss.take (ss.length - b.dropped)
  left ++ match left.head? with
    | none => []
    | some s => List.replicate b.repeated s

/-- Signs every message for its own amount. -/
def signOutputs (m : Simulated) (os : List BlindedMessage) :
    Outcome (List BlindedSignature) × Simulated :=
  let (r, m) := m.signAll S (os.map fun o => (o, o.amount))
  (r.map (Behaviour.garble m.behaviour), m)

/-! ## Inputs -/

/-- The point of an input's secret. -/
def inputPoint (q : Proof) : Outcome String :=
  match q.secret with
  | .str s => do S.pointHex (← S.hashToCurve (← Bytes.encode s))
  | _ => .error .notObject

def state (m : Simulated) (y : String) : SpendState := (m.states.lookup y).getD .unspent

/-- The points of inputs that may be spent together. -/
def checkInputs (m : Simulated) (inputs : List Proof) : Outcome (List String) := do
  let ys ← inputs.mapM (inputPoint S)
  if ys.any (m.state · = .spent) ∨ ys.eraseDups.length ≠ ys.length then
    refuse (.mint "Token already spent." (.int 400) (.int 11001))
  else return ys

def mark (m : Simulated) (ys : List String) (s : SpendState) : Simulated :=
  { m with states := ys.map (·, s) ++ m.states }

/-- What the mint charges for spending inputs. -/
def fee (m : Simulated) (inputs : List Proof) : Int :=
  Fee.ceilPpk (inputs.map fun q => ((m.signer? q.keyset).map (·.keyset.inputFeePpk)).getD 0).sum

/-! ## Calls -/

/-- Refuses unless inputs less the fee are worth as much as the outputs. -/
def checkBalance (m : Simulated) (q : SwapPayload) : Outcome Unit :=
  if Proof.total q.inputs - m.fee q.inputs = (q.outputs.map BlindedMessage.amount).sum then .ok ()
  else refuse (.mint "Unbalanced swap: IN - FEE != OUT" (.int 400) (.int 11002))

def swap (m : Simulated) (q : SwapPayload) : Outcome (List BlindedSignature) × Simulated :=
  match m.checkInputs S q.inputs, m.checkBalance q with
  | .error e, _ | .ok _, .error e => (.error e, m)
  | .ok ys, .ok _ => (m.mark ys .spent).signOutputs S q.outputs

/-- The state of the inputs of a melt. -/
def inputState : Json → SpendState
  | .str "PAID" => .spent
  | .str "PENDING" => .pending
  | _ => .unspent

/-- A signature that fits no blank. -/
def surplus (amount : Int) : Outcome BlindedSignature := do
  return ⟨amount, .str "00", .str (← S.pointHex S.base), none⟩

def melt (m : Simulated) (q : MeltPayload) : Outcome MeltQuote × Simulated :=
  match m.checkInputs S q.inputs with
  | .error e => (.error e, m)
  | .ok ys =>
    let b := m.behaviour
    let state := (b.melt.lookup "state").getD (.str MeltState.paid.name)
    let (signed, m) := (m.mark ys (inputState state)).signAll S (q.outputs.zip b.change)
    let answer : Outcome MeltQuote := do
      let change := (← signed) ++ (← (b.change.drop q.outputs.length).mapM (surplus S))
      let base : List (String × Json) := [("quote", q.quote), ("amount", .int 0), ("state", state)]
      MeltQuote.ofJson (.obj
        (("change", .arr (change.map BlindedSignature.toJson)) :: b.melt ++ base))
    (answer, m)

/-- The messages that the mint has signed, with the signatures. -/
def restore (m : Simulated) (os : List BlindedMessage) : List BlindedMessage × List BlindedSignature :=
  let b := m.behaviour
  let found := os.filterMap fun o => (m.issued.lookup o.b).map fun s => (o, s)
  let found := if b.restoreReversed then found.reverse else found
  (found.map Prod.fst, (found.map Prod.snd).take (found.length - b.restoreDropped))

def checkState (m : Simulated) (ys : List String) : List ProofState :=
  let b := m.behaviour
  let rows := (ys.map fun y => (⟨.str y, m.state y, .null⟩ : ProofState)).drop b.statesOmitted
  if b.statesReversed then rows.reverse else rows

/-- The answer to a call that is not refused outright. -/
def reply (m : Simulated) : (c : MintCall) → Outcome c.Reply × Simulated
  | .keysets => (.ok (m.signers.map fun s => { s.keyset with keys := [] }), m)
  | .keys _ => (.ok ((m.signers.filter (!·.hidesKeys)).map Signer.keyset), m)
  | .swap q => m.swap S q
  | .mint q => m.signOutputs S q.outputs
  | .melt q => m.melt S q
  | .restore os => (.ok (m.restore os), m)
  | .checkState ys => (.ok (m.checkState ys), m)
  | .mintQuote _ _ _ =>
    (MintQuote.ofJson (.obj (m.behaviour.mintQuote
      ++ [("quote", .str "mq"), ("request", .str "lnbc-mint")])), m)
  | .meltQuote request unit =>
    (MeltQuote.ofJson (.obj (m.behaviour.meltQuote
      ++ [("quote", .str "lq"), ("amount", .int 100), ("fee_reserve", .int 10), ("unit", unit),
        ("request", request)])), m)

/-- The answer to a call. -/
def answer (m : Simulated) (c : MintCall) : Outcome c.Reply × Simulated :=
  match m.behaviour.refusals.lookup c.operation with
  | some e => (refuse e, m)
  | none => m.reply S c

end Simulated

end Ecash.Mint
