import Ecash.Json.Access
import Ecash.Json.Compact

/-!
# Proofs

A proof is a spendable token: an amount, a secret and the mint's signature on
it. Members other than the amount are kept as received, whatever they are.
-/
namespace Ecash

-- Sums are core's own, whatever else is imported.
attribute [local instance (high)] Zero.ofOfNat0

/-- Evidence that a signature was made with the published key. `r`, the
blinding factor, is null unless the evidence travels with a proof. -/
structure Dleq where
  e : Json
  s : Json
  r : Json
  deriving DecidableEq, Repr

namespace Dleq

def ofJson (v : Json) : Outcome Dleq :=
  return ⟨← v.required "e", ← v.required "s", v.memberOr "r" .null⟩

def toJson (d : Dleq) : Json :=
  .obj ([("e", d.e), ("s", d.s)] ++ if d.r = .null then [] else [("r", d.r)])

/-- The evidence in a member that counts as absent, or is one. -/
def optional (v : Json) : Outcome (Option Dleq) :=
  if v.truthy then some <$> ofJson v else .ok none

end Dleq

/-- A spendable token. A null witness is none. A wallet that holds proofs in
several lists gives them handles: proofs with one handle are the very same one.
mirrors models/proof:51-107 -/
structure Proof where
  keyset : Json
  amount : Int
  secret : Json
  c : Json
  dleq : Option Dleq
  witness : Json
  handle : Option Nat
  deriving DecidableEq, Repr

namespace Proof

/-- Reads a proof; either spelling of a member's name will do. -/
def ofJson (v : Json) : Outcome Proof := do
  let _ ← v.asObject
  let dleq := v.memberOr "dleq" .null
  let keyset := v.memberOr "id" (v.memberOr "keyset_id" (.str ""))
  let amount ← (← v.required "amount").toInt
  let secret ← v.required "secret"
  let c := v.memberOr "C" (v.memberOr "c" (.str ""))
  return ⟨keyset, amount, secret, c, ← Dleq.optional dleq, v.memberOr "witness" .null, none⟩

def toJson (q : Proof) : Json :=
  .obj ([("id", q.keyset), ("amount", .int q.amount), ("secret", q.secret), ("C", q.c)]
    ++ (match q.dleq with | none => [] | some d => [("dleq", d.toJson)])
    ++ if q.witness = .null then [] else [("witness", q.witness)])

/-- A witness as it is sent: a text as it is, anything else as compact JSON. -/
def sentWitness : Json → Json
  | .null => .null
  | .str s => .str s
  | w => .str w.compact

/-- A copy of the proof as it is sent: a structured witness becomes text, and the
evidence stays behind unless `keepDleq`.
mirrors models/proof:98-107 -/
def prepared (q : Proof) (keepDleq : Bool) : Proof :=
  { q with
    dleq := if keepDleq then q.dleq else none
    witness := sentWitness q.witness
    handle := none }

/-- The two are the very same proof, and known to be. -/
def isSame (p q : Proof) : Bool := p.handle.isSome && p.handle == q.handle

/-- Total amount. -/
def total (qs : List Proof) : Int := (qs.map Proof.amount).sum

end Proof

/-- A list of proofs in two parts.
mirrors models/proof:115-120 -/
structure Partition where
  keep : List Proof
  send : List Proof
  deriving DecidableEq, Repr

/-- What the mint knows about a proof. -/
inductive SpendState where
  | unspent
  | pending
  | spent
  deriving DecidableEq, Repr

def SpendState.name : SpendState → String
  | .unspent => "UNSPENT"
  | .pending => "PENDING"
  | .spent => "SPENT"

def SpendState.ofJson (v : Json) : Outcome SpendState :=
  match [SpendState.unspent, .pending, .spent].find? fun s => v = .str s.name with
  | some s => .ok s
  | none => .error .unreadable

/-- The state of the proof whose point is `y`. -/
structure ProofState where
  y : Json
  state : SpendState
  witness : Json
  deriving DecidableEq, Repr

def ProofState.ofJson (v : Json) : Outcome ProofState := do
  let _ ← v.asObject
  return ⟨v.memberOr "Y" (v.memberOr "y" (.str "")), ← SpendState.ofJson (← v.required "state"),
    v.memberOr "witness" .null⟩

def ProofState.toJson (s : ProofState) : Json :=
  .obj [("Y", s.y), ("state", .str s.state.name), ("witness", s.witness)]

end Ecash
