import Ecash.Json.Access
import Ecash.Json.Same
import Ecash.Derivation.Secret

/-!
# Keysets

A keyset has one signing key an amount. The key chain holds the keysets of one
unit, in the order in which their ids were first added.
-/
namespace Ecash

/-- Keys by amount, in order of arrival. -/
abbrev Keys := List (Int × Json)

/-- Sets the key of an amount: in place when there is one, else at the end. -/
def Keys.set (amount : Int) (key : Json) : Keys → Keys
  | [] => [(amount, key)]
  | (a, k) :: rest => if a = amount then (a, key) :: rest else (a, k) :: Keys.set amount key rest

/-- A versioned set of signing keys.
mirrors models/keyset:21-71 -/
structure Keyset where
  id : Json
  unit : Json
  active : Json
  inputFeePpk : Int
  finalExpiry : Json
  keys : Keys
  deriving DecidableEq, Repr

namespace Keyset

/-- The amounts of the keys, ascending. -/
def amounts (k : Keyset) : List Int := (k.keys.map Prod.fst).mergeSort

/-- The key of an amount. -/
def key? (k : Keyset) (amount : Int) : Option Json := k.keys.lookup amount

/-- A hexadecimal id; only texts are tested. -/
def hasHexId (k : Keyset) : Outcome Bool :=
  match k.id with
  | .str s => .ok (Derivation.isHexId s.toList)
  | _ => .error .wrongKind

def hasKeys (k : Keyset) : Bool := !k.keys.isEmpty

/-- Keys from the members of an object, amounts as numerals. -/
def readKeys : List (String × Json) → Keys → Outcome Keys
  | [], done => .ok done
  | (amount, key) :: rest, done =>
    match Text.parseInt? amount with
    | none => .error .unreadable
    | some a => readKeys rest (Keys.set a key done)

/-- mirrors models/keyset:56-67 -/
def ofJson (v : Json) : Outcome Keyset := do
  let _ ← v.asObject
  let keys := (v.memberOr "keys" .null).orElse (.obj [])
  let id ← v.required "id"
  let fee ←
    ((v.memberOr "input_fee_ppk" (v.memberOr "inputFeePpk" (.int 0))).orElse (.int 0)).toInt
  let keys ← readKeys (← keys.asObject) []
  return ⟨id, v.memberOr "unit" (.str "sat"), v.memberOr "active" (.bool true), fee,
    v.memberOr "final_expiry" (v.memberOr "finalExpiry" .null), keys⟩

end Keyset

/-- A keyset as a mint publishes it. -/
def Keyset.toJson (k : Keyset) : Json :=
  .obj [("id", k.id), ("unit", k.unit), ("active", k.active), ("input_fee_ppk", .int k.inputFeePpk),
    ("final_expiry", k.finalExpiry), ("keys", .obj (k.keys.map fun (a, key) => (toString a, key)))]

/-- The keysets of one unit. -/
structure KeyChain where
  unit : Json
  keysets : List Keyset
  deriving DecidableEq, Repr

namespace KeyChain

/-- A chain without keysets. -/
def empty (unit : Json) : KeyChain := ⟨unit, []⟩

def isLoaded (c : KeyChain) : Bool := !c.keysets.isEmpty

/-- Puts a keyset in the place of the one with its id, or at the end. -/
def put (k : Keyset) : List Keyset → List Keyset
  | [] => [k]
  | j :: rest => if j.id.same k.id then k :: rest else j :: put k rest

/-- Adds a keyset of the chain's unit; others are passed over.
mirrors models/keyset:100-105 -/
def add (c : KeyChain) (k : Keyset) : Outcome KeyChain :=
  if !k.unit.same c.unit then .ok c
  else if !k.id.isKey then .error .wrongKind
  else .ok { c with keysets := put k c.keysets }

/-- Those that the mint still signs with and that the wallet can derive secrets for. -/
def usable : List Keyset → Outcome (List Keyset)
  | [] => .ok []
  | k :: rest => do
    let ok ← if k.active.truthy then (· && k.hasKeys) <$> k.hasHexId else pure false
    let others ← usable rest
    return if ok then k :: others else others

/-- The first keyset with the lowest fee. -/
def cheapestOf (k : Keyset) : List Keyset → Keyset
  | [] => k
  | j :: rest => cheapestOf (if j.inputFeePpk < k.inputFeePpk then j else k) rest

/-- The cheapest usable keyset.
mirrors models/keyset:134-145 -/
def cheapest (c : KeyChain) : Outcome Keyset :=
  if c.keysets.isEmpty then refuse .noKeysets
  else do
    match ← usable c.keysets with
    | [] => refuse .noActiveKeyset
    | k :: rest => return cheapestOf k rest

/-- The keyset with an id, or the cheapest one without.
mirrors models/keyset:120-132 -/
def get (c : KeyChain) (id : Json) : Outcome Keyset :=
  if !id.truthy then c.cheapest
  else if !id.isKey then .error .wrongKind
  else
    match c.keysets.find? (·.id.same id) with
    | some k => .ok k
    | none => refuse (.unknownKeyset id)

end KeyChain

end Ecash
