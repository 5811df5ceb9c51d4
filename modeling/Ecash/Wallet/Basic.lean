import Ecash.Plan.Outputs
import Ecash.Swap

/-!
# The wallet

A wallet works with one mint and in one unit. It knows the mint's keysets; its
seed, if it has one, stays with the handler of its programs.
-/
namespace Ecash

/-- A mint's address without blanks around it and slashes at its end. -/
def sanitizeUrl (url : String) : String :=
  String.ofList (Text.dropTail (· == '/') (Text.trim url.toList))

/-- Proofs handed over by a sender. -/
structure Token where
  mint : String
  proofs : List Proof
  unit : String
  memo : Option String
  deriving DecidableEq, Repr

/-- Face value. -/
def Token.amount (t : Token) : Int := Proof.total t.proofs

/-- A wallet for one mint and unit.
mirrors engine/client:82-180 -/
structure Wallet where
  settings : Settings.Wallet
  chain : KeyChain
  seeded : Bool
  deriving Repr

namespace Wallet

def unit (w : Wallet) : String := w.settings.unit

def mintUrl (w : Wallet) : String := sanitizeUrl w.settings.mint.url

/-- How outputs are made when the caller does not say.
mirrors engine/client:182-187 -/
def defaultPolicy (w : Wallet) : Policy :=
  match w.settings.secretsPolicy with
  | .deterministic => .deterministic 0 []
  | .auto => if w.seeded then .deterministic 0 [] else .random []
  | .random => .random []

/-- The keyset that is asked for, else that of the settings, else the cheapest.
mirrors engine/client:623-624 -/
def keyset (w : Wallet) (id : Json) : Outcome Keyset :=
  w.chain.get (id.orElse (.str w.settings.keysetId))

/-- Fee for spending proofs together. -/
def feeForProofs (w : Wallet) (proofs : List Proof) : Outcome Int := Fee.forProofs w.chain proofs

/-- Fee for spending `n` proofs of a keyset. -/
def feeForKeyset (w : Wallet) (n : Int) (id : Json) : Outcome Int := Fee.forKeyset w.chain n id

/-- Selects proofs without talking to the mint. -/
def select (w : Wallet) (r : Selection.Request) (proofs : List Proof) : Program Partition :=
  Selection.select w.chain w.settings.selection r proofs

/-- Denominations for a request. -/
def configure (w : Wallet) (k : Keyset) (r : Plan.Request) : Outcome OutputSpec :=
  Plan.configure w.settings.output w.seeded k r

/-- Options of a single operation: the keyset of new outputs and a listener for
the counters that it reserves. -/
structure Options where
  keyset : Json
  onReserved : Option Listener
  deriving DecidableEq, Repr

end Wallet

/-! ## Loading keysets -/

namespace KeyChain

/-- Keys by keyset id; of two entries for one id the later counts. -/
def keysById (ks : List Keyset) : Outcome (List (Json × Keys)) :=
  if ks.all (·.id.isKey) then .ok (ks.map fun k => (k.id, k.keys)).reverse else .error .wrongKind

/-- A keyset with the keys known for its id. -/
def withKeys (keys : List (Json × Keys)) (k : Keyset) : Outcome Keyset :=
  if !k.id.isKey then .error .wrongKind
  else
    match Json.find? k.id keys with
    | some ks => .ok (if ks.isEmpty then k else { k with keys := ks })
    | none => .ok k

/-- Adds all keysets of the mint, with the keys of those that it signs with.
mirrors models/keyset:107-114 -/
def load (c : KeyChain) : Program KeyChain := do
  let keysets : List Keyset ← Program.call .keysets
  let withKeys : List Keyset ← Program.call (.keys .null)
  let keys ← keysById withKeys
  keysets.foldlM (fun c k => do return ← c.add (← KeyChain.withKeys keys k)) c

end KeyChain

namespace Wallet

/-- Loads the mint's keysets, unless there are some. -/
def loadKeysets (w : Wallet) : Program Wallet := do
  if w.chain.isLoaded then return w
  else return { w with chain := ← w.chain.load }

/-! ## Quotes -/

/-- Asks for an invoice; what the mint leaves open is what was asked for. -/
def mintQuote (w : Wallet) (amount : Int) (description : Json) : Program MintQuote := do
  let q : MintQuote ← Program.call (.mintQuote amount (.str w.unit) description)
  return { q with
    amount := if q.amount = 0 then amount else q.amount
    unit := q.unit.orElse (.str w.unit) }

/-- Asks what paying an invoice would cost. -/
def meltQuote (w : Wallet) (request : Json) : Program MeltQuote :=
  Program.call (.meltQuote request (.str w.unit))

end Wallet

end Ecash
