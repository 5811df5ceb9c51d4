import Ecash.Derivation.Extended

/-!
# Deterministic secrets

A secret and its blinding factor follow from the wallet's seed, the keyset's id
and a counter. Ids that start with `01` use a keyed hash, those that start with
`00` a path of extended keys.
-/
namespace Ecash.Derivation

-- Powers are core's own, whatever else is imported.
attribute [local instance (high)] instPowNat

/-- Which value is derived. -/
inductive Purpose where
  | secret
  | blinding
  deriving DecidableEq, Repr

def Purpose.code : Purpose → Nat
  | .secret => 0
  | .blinding => 1

/-- Hexadecimal digits throughout, at least one, and perhaps a final line break. -/
def isHexId (id : List Char) : Bool :=
  let body := if id.getLast? = some '\n' then id.dropLast else id
  !body.isEmpty && body.all fun c => (Bytes.hexValue? c).isSome

/-- The child index of a keyset, from its id read as a number. -/
def keysetIndex (id : String) : Outcome Int :=
  match Text.parseHexInt? id with
  | none => .error .unreadable
  | some n => .ok (n % (2 ^ (31 : Nat) - 1))

/-- What is hashed for ids that start with `01`. -/
def hashedMessage (id : String) (counter : Nat) (purpose : Purpose) : Outcome Bytes :=
  match Bytes.ofHex? id with
  | none => .error .unreadable
  | some idBytes =>
    if 2 ^ (64 : Nat) ≤ counter then .error .tooLarge
    else .ok (Bytes.ofText "Cashu_KDF_HMAC_SHA256" ++ idBytes ++ Bytes.ofNat 8 counter ++
      [UInt8.ofNat purpose.code])

/-- The path for ids that start with `00`. -/
def pathText (keyset : Int) (counter : Nat) (purpose : Purpose) : String :=
  "m/129372'/0'/" ++ toString keyset ++ "'/" ++ toString counter ++ "'/" ++ toString purpose.code

variable (S : Suite)

/-- The value that a digest stands for. -/
def ofDigest (purpose : Purpose) (digest : Bytes) : Outcome Bytes :=
  match purpose with
  | .secret => return digest
  | .blinding =>
    let value := Bytes.toNat digest
    if S.order ≤ value then return Bytes.ofNat 32 (value - S.order)
    else if value = 0 then .error (.derivation .scalarZero)
    else return digest

/-- mirrors crypto/secrets:59-71 -/
def deriveHashed (seed : Bytes) (id : String) (counter : Nat) (purpose : Purpose) : Outcome Bytes := do
  ofDigest S purpose (S.hmacSha256 seed (← hashedMessage id counter purpose))

/-- mirrors crypto/secrets:74-76 -/
def derivePath (seed : Bytes) (id : String) (counter : Nat) (purpose : Purpose) : Outcome Bytes := do
  let path := pathText (← keysetIndex id) counter purpose
  return (← (← ExtendedKey.ofSeed S seed).descendPath S path).key

/-- The 32 bytes for a counter of a keyset.
mirrors crypto/secrets:44-56 -/
def derive (seed : Bytes) (id : String) (counter : Int) (purpose : Purpose) : Outcome Bytes :=
  if counter < 0 then .error (.derivation (.negativeCounter counter))
  else if !isHexId id.toList then .error (.derivation (.unsupportedId id))
  else
    match id.toList.take 2 with
    | ['0', '0'] => derivePath S seed id counter.toNat purpose
    | ['0', '1'] => deriveHashed S seed id counter.toNat purpose
    | version => .error (.derivation (.unknownVersion (String.ofList version)))

/-- The secret for a counter. -/
def secret (seed : Bytes) (id : String) (counter : Int) : Outcome Bytes :=
  derive S seed id counter .secret

/-- The blinding factor for a counter. -/
def blindingFactor (seed : Bytes) (id : String) (counter : Int) : Outcome Nat :=
  (derive S seed id counter .blinding).map Bytes.toNat

end Ecash.Derivation
