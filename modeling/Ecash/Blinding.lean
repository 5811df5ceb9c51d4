import Ecash.Suite

/-!
# Blind signatures

A secret is mapped to a point `Y`; the wallet sends `B = Y + rG`, the mint
answers `C' = kB`, and `C' - rK` is `kY`, which the mint cannot link to `B`.
-/
namespace Ecash

-- Powers are core's own, whatever else is imported.
attribute [local instance (high)] instPowNat

namespace Suite

variable (S : Suite)

/-- Put before every message that is mapped to a point. -/
def curveDomain : Bytes := Bytes.ofText "Secp256k1_HashToCurve_Cashu_"

/-- Tries the counters from `counter` on, `fuel` of them. -/
def firstPoint (seed : Bytes) : (fuel counter : Nat) → Outcome S.Point
  | 0, _ => .error (.derivation .noPoint)
  | fuel + 1, counter =>
    match S.decode (2 :: S.sha256 (seed ++ Bytes.ofNatLittle 4 counter)) with
    | .ok q => .ok q
    | .error _ => firstPoint seed fuel (counter + 1)

/-- The point of a message.
mirrors crypto/dhke:24-38 -/
def hashToCurve (message : Bytes) : Outcome S.Point :=
  S.firstPoint (S.sha256 (curveDomain ++ message)) (2 ^ (16 : Nat)) 0

/-- The blinded point of a secret, with blinding factor `r`.
mirrors crypto/dhke:46-58 -/
def blind (secret : Bytes) (r : Int) : Outcome S.Point :=
  (S.hashToCurve secret).map fun y => S.add y (S.mul r S.base)

/-- The signature without its blinding: `signed - r · key`.
mirrors crypto/dhke:61-64 -/
def unblind (signed : S.Point) (r : Int) (key : S.Point) : S.Point :=
  S.add signed (S.mul (S.order - r % S.order) key)

end Suite

end Ecash
