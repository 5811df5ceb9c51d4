import Ecash.Blinded
import Ecash.Blinding
import Ecash.Bytes.Unicode
import Ecash.Keyset

/-!
# Outputs

An output is a blinded message together with what is needed to turn the
signature on it into a proof.
-/
namespace Ecash

-- Powers and sums are core's own, whatever else is imported.
attribute [local instance (high)] instPowNat Zero.ofOfNat0

/-- A blinded message with its secret and blinding factor. -/
structure Output where
  message : BlindedMessage
  factor : Int
  secret : Bytes
  deriving DecidableEq, Repr

namespace Output

variable (S : Suite)

/-- The output for a secret and a blinding factor.
mirrors models/output_data:129-139 -/
def ofSecret (amount : Int) (keyset : Json) (secret : Bytes) (factor : Int) : Outcome Output := do
  let b ← S.pointHex (← S.blind secret factor)
  return ⟨⟨amount, keyset, .str b⟩, factor, secret⟩

/-- A point from a received value. -/
def readPoint : Json → Outcome S.Point
  | .str s => S.pointOfHex s
  | _ => .error .wrongKind

/-- The blinding factor in 32 bytes. -/
def factorHex (r : Int) : Outcome String :=
  if 0 ≤ r ∧ r < 2 ^ (256 : Nat) then .ok (Bytes.ofNat 32 r.toNat).hex else .error .tooLarge

/-- The proof from a signature. Amount and keyset id are those of the
signature, so a blank takes the amount that was signed.
mirrors models/output_data:96-125 -/
def toProof (o : Output) (s : BlindedSignature) (k : Keyset) : Outcome Proof := do
  match (k.key? s.amount).filter (· ≠ .null) with
  | none => refuse (.noKeyFor k.id s.amount)
  | some key =>
    let signed ← readPoint S s.c
    let c := S.unblind signed o.factor (← readPoint S key)
    let dleq ← match s.dleq with
      | none => pure none
      | some d => do pure (some ⟨d.e, d.s, .str (← factorHex o.factor)⟩)
    match Bytes.text? o.secret with
    | none => .error .notText
    | some secret => return ⟨s.keyset, s.amount, .str secret, .str (← S.pointHex c), dleq, .null, none⟩

/-- Total amount. -/
def total (os : List Output) : Int := (os.map (·.message.amount)).sum

end Output

end Ecash
