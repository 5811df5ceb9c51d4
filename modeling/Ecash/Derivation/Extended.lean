import Ecash.Suite
import Ecash.Text.Numeral

/-!
# Extended keys

A private key with a chain code. A child key is the parent's key plus the left
half of a keyed hash, modulo the group's order; the right half is the child's
chain code. Indices from `hardened` on hash the private key itself.
-/
namespace Ecash

-- Powers are core's own, whatever else is imported.
attribute [local instance (high)] instPowNat

/-- A private key and its chain code, and how it was reached. -/
structure ExtendedKey where
  key : Bytes
  chainCode : Bytes
  depth : Nat := 0
  childIndex : Int := 0
  deriving DecidableEq, Repr

namespace ExtendedKey

/-- First hardened index. -/
def hardened : Int := 0x80000000

variable (S : Suite)

/-- The private key as a number. -/
def scalar (k : ExtendedKey) : Nat := Bytes.toNat k.key

/-- The encoded public key. -/
def publicKey (k : ExtendedKey) : Outcome Bytes := S.publicKey k.scalar

/-- The four bytes of a child index. -/
def indexBytes (index : Int) : Outcome Bytes :=
  if 0 ≤ index ∧ index < 2 ^ (32 : Nat) then .ok (Bytes.ofNat 4 index.toNat) else .error .indexRange

/-- What is hashed for a child. -/
def childMessage (k : ExtendedKey) (index : Int) : Outcome Bytes := do
  let head ← if hardened ≤ index then pure (0 :: k.key) else k.publicKey S
  return head ++ (← indexBytes index)

/-- The child at an index.
mirrors crypto/bip32:46-78 -/
def child (k : ExtendedKey) (index : Int) : Outcome ExtendedKey := do
  let digest := S.hmacSha512 k.chainCode (← k.childMessage S index)
  let left := Bytes.toNat (digest.take 32)
  if S.order ≤ left then .error (.derivation .childTooLarge)
  else
    let scalar := (left + k.scalar) % S.order
    if scalar = 0 then .error (.derivation .childZero)
    else return ⟨Bytes.ofNat 32 scalar, digest.drop 32, k.depth + 1, index⟩

/-- The key reached by a list of indices. -/
def descend (k : ExtendedKey) : List Int → Outcome ExtendedKey
  | [] => .ok k
  | i :: is => do (← k.child S i).descend is

/-- The key of a seed.
mirrors crypto/bip32:97-116 -/
def ofSeed (seed : Bytes) : Outcome ExtendedKey :=
  if seed.length < 16 ∨ 64 < seed.length then .error (.derivation (.seedLength seed.length))
  else
    let digest := S.hmacSha512 (Bytes.ofText "Bitcoin seed") seed
    let left := Bytes.toNat (digest.take 32)
    if left = 0 ∨ S.order ≤ left then .error (.derivation .seedOutOfRange)
    else .ok ⟨digest.take 32, digest.drop 32, 0, 0⟩

/-! ## Paths -/

/-- Marks of a hardened index. -/
def isMark (c : Char) : Bool := c == '\'' || c == 'h' || c == 'H'

/-- The index that a part of a path names; `m`, `M` and nothing name none. -/
def partIndex (part : List Char) : Outcome (Option Int) :=
  if part = [] ∨ part = ['m'] ∨ part = ['M'] then .ok none
  else
    match Text.readInt? 10 (Text.dropTail isMark part) with
    | none => .error .unreadable
    | some n => .ok (some (if part.getLast?.any isMark then n + hardened else n))

/-- The parts of a path between its slashes. -/
def parts (path : String) : List (List Char) := (Text.trim path.toList).splitOn '/'

/-- The key reached by the parts of a path, each read when its turn comes. -/
def descendParts (k : ExtendedKey) : List (List Char) → Outcome ExtendedKey
  | [] => .ok k
  | part :: rest => do
    match ← partIndex part with
    | none => k.descendParts rest
    | some i => (← k.child S i).descendParts rest

/-- The key reached by a path such as `m/44'/0'/1`.
mirrors crypto/bip32:80-95 -/
def descendPath (k : ExtendedKey) (path : String) : Outcome ExtendedKey :=
  k.descendParts S (parts path)

end ExtendedKey

end Ecash
