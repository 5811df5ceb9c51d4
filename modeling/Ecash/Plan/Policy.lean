import Ecash.Lock
import Ecash.Output

/-!
# Output policies

A policy says how the secrets of new outputs are made and, if the caller has a
wish, in which denominations.
-/
namespace Ecash

/-- How outputs are made. No denominations means that the wallet chooses them.
mirrors engine/policy:21-60 -/
inductive Policy where
  /-- Fresh random secrets. -/
  | random (denominations : List Int)
  /-- Secrets of the seed. From a positive counter on the caller answers for the
  indices; otherwise they come from the counter source. -/
  | deterministic (counter : Int) (denominations : List Int)
  /-- Secrets that state who may spend. -/
  | locked (options : LockOptions) (denominations : List Int)
  /-- One call of the caller's factory an output. -/
  | factory (number : Nat) (denominations : List Int)
  /-- Finished outputs, taken as they are. -/
  | custom (data : List Output)
  deriving DecidableEq, Repr

namespace Policy

/-- The denominations that the caller asks for. -/
def denominations : Policy → List Int
  | random ds | deterministic _ ds | locked _ ds | factory _ ds => ds
  | custom _ => []

/-- The first index, when the caller chose it.
mirrors engine/planner:322-325 -/
def pinned? : Policy → Option Int
  | deterministic counter _ => if 0 < counter then some counter else none
  | _ => none

def isDeterministic : Policy → Bool
  | deterministic .. => true
  | _ => false

/-- Random outputs in denominations of the wallet's choice. -/
def isPlain : Policy → Bool
  | random ds => ds.isEmpty
  | _ => false

/-- Has what it needs: a seed, or a key.
mirrors engine/planner:302-306 -/
def check (seeded : Bool) : Policy → Outcome Unit
  | deterministic .. => if seeded then .ok () else refuse .seedMissing
  | locked options _ => if options.pubkeys.isEmpty then refuse .lockKeyMissing else .ok ()
  | random _ | factory .. | custom _ => .ok ()

end Policy

end Ecash
