import Ecash.Json.Compact
import Ecash.Failure

/-!
# Spending conditions

A locked output's secret is a text that names the keys that may spend it, under
which conditions, and a nonce.
-/
namespace Ecash

/-- Who may spend, and when. The first key is the primary one. -/
structure LockOptions where
  pubkeys : List String
  locktime : Option Int
  refundKeys : List String
  signatures : Option Int
  refundSignatures : Option Int
  sigFlag : Option String
  tags : List (List String)
  deriving DecidableEq, Repr

namespace LockOptions

def texts (ts : List String) : Json := .arr (ts.map .str)

/-- The conditions other than the primary key. -/
def allTags (o : LockOptions) : List (List String) :=
  (match o.pubkeys.drop 1 with | [] => [] | more => ["pubkeys" :: more])
  ++ (match o.signatures with | none => [] | some n => [["n_sigs", toString n]])
  ++ (match o.locktime with | none => [] | some t => [["locktime", toString t]])
  ++ (if o.refundKeys.isEmpty then []
      else ("refund" :: o.refundKeys) ::
        match o.refundSignatures with | none => [] | some n => [["n_sigs_refund", toString n]])
  ++ (match o.sigFlag with | none => [] | some f => if f = "" then [] else [["sigflag", f]])
  ++ o.tags

/-- The secret with a given nonce.
mirrors models/output_data:61-80 -/
def secretText (primary nonce : String) (o : LockOptions) : String :=
  (Json.arr [.str "P2PK",
    .obj [("nonce", .str nonce), ("data", .str primary), ("tags", .arr (o.allTags.map texts))]]).compact

end LockOptions

end Ecash
