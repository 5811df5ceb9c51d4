import Ecash.Bytes.Hex
import Ecash.Curve.Secp256k1

/-!
# Compressed points

A point is written in 33 bytes: two or three for an even or odd `y`, then `x`.
Reading finds `y` as the `(p + 1) / 4`-th power of the right-hand side of the
curve's equation, which is a root of it if there is one.
-/
namespace Ecash.Curve

/-- Why bytes are not a compressed point, or a point has none. -/
inductive PointError where
  | length (n : Nat)
  | tag (b : UInt8)
  | outOfRange
  | notOnCurve
  | infinity
  deriving DecidableEq, Repr

/-- The wording of the error. -/
def PointError.message : PointError → String
  | .length n => s!"Invalid compressed key length: {n}"
  | .tag b => "Invalid compressed key prefix: 0x" ++ String.ofList (Nat.toDigits 16 b.toNat)
  | .outOfRange => "x coordinate out of range"
  | .notOnCurve => "x coordinate is not on the curve"
  | .infinity => "Cannot encode the point at infinity"

/-- The root whose parity fits `tag`. -/
def rootFor (tag : UInt8) (y : Nat) : Nat := if (y % 2 = 0) = (tag = 2) then y else p - y

/-- Reads a compressed point.
mirrors crypto/curve:28-54 -/
def decode (bs : Bytes) : Except PointError Point :=
  match bs with
  | [] => .error (.length 0)
  | tag :: rest =>
    if bs.length ≠ 33 then .error (.length bs.length)
    else if tag ≠ 2 ∧ tag ≠ 3 then .error (.tag tag)
    else
      let x := Bytes.toNat rest
      if p ≤ x then .error .outOfRange
      else
        let y := powMod p (rhs x) ((p + 1) / 4)
        if y * y % p ≠ rhs x then .error .notOnCurve
        else .ok (.affine x (rootFor tag y))

/-- Writes a point.
mirrors crypto/curve:62-73 -/
def encode : Point → Except PointError Bytes
  | .infinity => .error .infinity
  | .affine x y => .ok ((if y % 2 = 0 then 2 else 3) :: Bytes.ofNat 32 x)

end Ecash.Curve
