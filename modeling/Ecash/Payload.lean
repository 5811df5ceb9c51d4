import Ecash.Output
import Ecash.Quote

/-!
# Payloads

What the wallet sends to the mint, and the calls that it can make.
-/
namespace Ecash

def inputsJson (qs : List Proof) : Json := .arr (qs.map Proof.toJson)

def outputsJson (ms : List BlindedMessage) : Json := .arr (ms.map BlindedMessage.toJson)

/-- Inputs to be replaced by outputs of the same value, less the fee. -/
structure SwapPayload where
  inputs : List Proof
  outputs : List BlindedMessage
  deriving DecidableEq, Repr

def SwapPayload.toJson (q : SwapPayload) : Json :=
  .obj [("inputs", inputsJson q.inputs), ("outputs", outputsJson q.outputs)]

/-- Outputs against a paid quote. -/
structure MintPayload where
  quote : Json
  outputs : List BlindedMessage
  deriving DecidableEq, Repr

def MintPayload.toJson (q : MintPayload) : Json :=
  .obj [("quote", q.quote), ("outputs", outputsJson q.outputs)]

/-- Inputs that pay a quote, and blanks for the change. -/
structure MeltPayload where
  quote : Json
  inputs : List Proof
  outputs : List BlindedMessage
  deriving DecidableEq, Repr

def MeltPayload.toJson (q : MeltPayload) : Json :=
  .obj [("quote", q.quote), ("inputs", inputsJson q.inputs), ("outputs", outputsJson q.outputs)]

/-- Everything needed to finish a melt later.
mirrors models/payloads:60-67 -/
structure MeltBlanks where
  payload : MeltPayload
  outputs : List Output
  keyset : Keyset
  quote : MeltQuote
  deriving DecidableEq, Repr

/-- A call to the mint.
mirrors mint/client:34-57 -/
inductive MintCall where
  | keysets
  | keys (id : Json)
  | swap (payload : SwapPayload)
  | mint (payload : MintPayload)
  | melt (payload : MeltPayload)
  | restore (outputs : List BlindedMessage)
  | checkState (ys : List String)
  | mintQuote (amount : Int) (unit : Json) (description : Json)
  | meltQuote (request : Json) (unit : Json)
  deriving DecidableEq, Repr

/-- Name of the call, as it appears in messages and metrics. -/
def MintCall.operation : MintCall → String
  | .keysets => "get_keysets"
  | .keys _ => "get_keys"
  | .swap _ => "swap"
  | .mint _ => "mint"
  | .melt _ => "melt"
  | .restore _ => "restore"
  | .checkState _ => "check_state"
  | .mintQuote .. => "create_mint_quote"
  | .meltQuote .. => "create_melt_quote"

/-- What a call tells the mint. -/
def MintCall.body : MintCall → Json
  | .keysets => .null
  | .keys id => id
  | .swap q => q.toJson
  | .mint q => q.toJson
  | .melt q => q.toJson
  | .restore os => outputsJson os
  | .checkState ys => .arr (ys.map .str)
  | .mintQuote amount unit description => .arr [.int amount, unit, description]
  | .meltQuote request unit => .arr [request, unit]

/-- What a call is answered with. -/
def MintCall.Reply : MintCall → Type
  | .keysets | .keys _ => List Keyset
  | .swap _ | .mint _ => List BlindedSignature
  | .melt _ | .meltQuote .. => MeltQuote
  | .restore _ => List BlindedMessage × List BlindedSignature
  | .checkState _ => List ProofState
  | .mintQuote .. => MintQuote

end Ecash
