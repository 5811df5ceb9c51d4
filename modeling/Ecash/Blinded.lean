import Ecash.Proof

/-!
# Blinded messages and signatures

What the wallet asks the mint to sign, and what it gets back.
-/
namespace Ecash

/-- A request for a signature on the blinded point `b`.
mirrors models/proof:128-147 -/
structure BlindedMessage where
  amount : Int
  keyset : Json
  b : Json
  deriving DecidableEq, Repr

namespace BlindedMessage

def ofJson (v : Json) : Outcome BlindedMessage :=
  return ⟨← (← v.required "amount").toInt, v.memberOr "id" (v.memberOr "keyset_id" (.str "")),
    v.memberOr "B_" (v.memberOr "b_" (.str ""))⟩

def toJson (m : BlindedMessage) : Json :=
  .obj [("amount", .int m.amount), ("id", m.keyset), ("B_", m.b)]

end BlindedMessage

/-- A signature on a blinded message.
mirrors models/proof:150-175 -/
structure BlindedSignature where
  amount : Int
  keyset : Json
  c : Json
  dleq : Option Dleq
  deriving DecidableEq, Repr

namespace BlindedSignature

def ofJson (v : Json) : Outcome BlindedSignature := do
  let _ ← v.asObject
  let dleq := v.memberOr "dleq" .null
  return ⟨← (← v.required "amount").toInt, v.memberOr "id" (v.memberOr "keyset_id" (.str "")),
    v.memberOr "C_" (v.memberOr "c_" (.str "")), ← Dleq.optional dleq⟩

def toJson (s : BlindedSignature) : Json :=
  .obj ([("amount", .int s.amount), ("id", s.keyset), ("C_", s.c)]
    ++ match s.dleq with | none => [] | some d => [("dleq", d.toJson)])

end BlindedSignature

end Ecash
