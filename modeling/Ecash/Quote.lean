import Ecash.Blinded

/-!
# Quotes

A mint quote is an invoice whose payment pays for new proofs; a melt quote is
an invoice that the mint pays with proofs.
-/
namespace Ecash

/-- How far a mint quote has come. -/
inductive MintState where
  | unpaid
  | paid
  | issued
  deriving DecidableEq, Repr

def MintState.name : MintState → String
  | .unpaid => "UNPAID"
  | .paid => "PAID"
  | .issued => "ISSUED"

def MintState.ofJson (v : Json) : Outcome MintState :=
  match [MintState.unpaid, .paid, .issued].find? fun s => v = .str s.name with
  | some s => .ok s
  | none => .error .unreadable

/-- mirrors models/quotes:28-49 -/
structure MintQuote where
  quote : Json
  request : Json
  amount : Int
  unit : Json
  state : MintState
  expiry : Json
  deriving DecidableEq, Repr

def MintQuote.ofJson (v : Json) : Outcome MintQuote := do
  let quote ← v.required "quote"
  let amount ← ((v.memberOr "amount" .null).orElse (.int 0)).toInt
  let state ← MintState.ofJson (v.memberOr "state" (.str MintState.unpaid.name))
  return ⟨quote, v.memberOr "request" (.str ""), amount, v.memberOr "unit" (.str "sat"), state,
    v.memberOr "expiry" .null⟩

def MintQuote.toJson (q : MintQuote) : Json :=
  .obj [("quote", q.quote), ("request", q.request), ("amount", .int q.amount), ("unit", q.unit),
    ("state", .str q.state.name), ("expiry", q.expiry)]

/-- How far a melt quote has come. -/
inductive MeltState where
  | unpaid
  | pending
  | paid
  deriving DecidableEq, Repr

def MeltState.name : MeltState → String
  | .unpaid => "UNPAID"
  | .pending => "PENDING"
  | .paid => "PAID"

def MeltState.ofJson (v : Json) : Outcome MeltState :=
  match [MeltState.unpaid, .pending, .paid].find? fun s => v = .str s.name with
  | some s => .ok s
  | none => .error .unreadable

/-- `change` holds signatures on returned blanks.
mirrors models/quotes:52-90 -/
structure MeltQuote where
  quote : Json
  amount : Int
  feeReserve : Int
  unit : Json
  request : Json
  state : MeltState
  expiry : Json
  preimage : Json
  change : List BlindedSignature
  deriving DecidableEq, Repr

namespace MeltQuote

def ofJson (v : Json) : Outcome MeltQuote := do
  let quote ← v.required "quote"
  let amount ← ((v.memberOr "amount" .null).orElse (.int 0)).toInt
  let feeReserve ←
    ((v.memberOr "fee_reserve" (v.memberOr "feeReserve" (.int 0))).orElse (.int 0)).toInt
  let state ← MeltState.ofJson (v.memberOr "state" (.str MeltState.unpaid.name))
  let change ←
    ((v.memberOr "change" .null).orElse (.arr [])).readList BlindedSignature.ofJson
  return ⟨quote, amount, feeReserve, v.memberOr "unit" (.str "sat"), v.memberOr "request" (.str ""),
    state, v.memberOr "expiry" .null, v.memberOr "payment_preimage" .null, change⟩

def toJson (q : MeltQuote) : Json :=
  .obj [("quote", q.quote), ("amount", .int q.amount), ("fee_reserve", .int q.feeReserve),
    ("unit", q.unit), ("request", q.request), ("state", .str q.state.name), ("expiry", q.expiry),
    ("payment_preimage", q.preimage), ("change", .arr (q.change.map BlindedSignature.toJson))]

/-- The mint's latest view, with the unit of `q` and, if it has one, its request. -/
def mergedWith (q response : MeltQuote) : MeltQuote :=
  { response with unit := q.unit, request := q.request.orElse response.request }

end MeltQuote

end Ecash
