import Ecash.Curve.Encoding
import Ecash.Hash.Hmac
import Ecash.Failure

/-!
# The cryptographic suite

The wallet uses a group with a base point, an encoding of its points, and three
hash functions. `Suite.secp256k1` is the suite in use; everything above it is
written for any suite.
-/
namespace Ecash

/-- A group with encoded points, and hash functions. -/
structure Suite where
  Point : Type
  order : Nat
  base : Point
  add : Point → Point → Point
  mul : Int → Point → Point
  encode : Point → Except Curve.PointError Bytes
  decode : Bytes → Except Curve.PointError Point
  sha256 : Bytes → Bytes
  hmacSha256 : (key message : Bytes) → Bytes
  hmacSha512 : (key message : Bytes) → Bytes

/-- secp256k1 with the SHA-2 family. -/
def Suite.secp256k1 : Suite where
  Point := Curve.Point
  order := Curve.n
  base := Curve.base
  add := Curve.Point.add
  mul := Curve.Point.mul
  encode := Curve.encode
  decode := Curve.decode
  sha256 := Hash.Sha256.digest
  hmacSha256 := Hash.hmacSha256
  hmacSha512 := Hash.hmacSha512

namespace Suite

variable (S : Suite)

/-- Reads a point from hexadecimal. -/
def pointOfHex (s : String) : Outcome S.Point :=
  match Bytes.ofHex? s with
  | none => .error .unreadable
  | some bs => (S.decode bs).mapError .point

/-- Writes a point in hexadecimal. -/
def pointHex (q : S.Point) : Outcome String :=
  match S.encode q with
  | .ok bs => .ok bs.hex
  | .error e => .error (.point e)

/-- The encoded public key of a private scalar.
mirrors crypto/curve:81-87 -/
def publicKey (k : Int) : Outcome Bytes :=
  if 0 < k ∧ k < S.order then (S.encode (S.mul k S.base)).mapError .point
  else .error (.derivation .scalarOutOfRange)

end Suite

end Ecash
