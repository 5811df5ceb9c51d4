/-!
# The curve y² = x³ + 7

Points over the field of `p` elements, `p = 2^256 - 2^32 - 977`, with the group
law in affine coordinates. Multiples are computed in projective coordinates,
so that one inverse is enough.
-/
namespace Ecash.Curve

-- Powers are core's own, whatever else is imported.
attribute [local instance (high)] instPowNat

/-- The field's prime. -/
def p : Nat := 2 ^ (256 : Nat) - 2 ^ (32 : Nat) - 977

/-- The order of the group. -/
def n : Nat := 0xFFFFFFFFFFFFFFFFFFFFFFFFFFFFFFFEBAAEDCE6AF48A03BBFD25E8CD0364141

/-! ## Field -/

/-- `acc · b ^ e` modulo `m`, for exponents of at most `fuel` binary digits. -/
def powModFrom (m : Nat) : (fuel b e acc : Nat) → Nat
  | 0, _, _, acc => acc
  | fuel + 1, b, e, acc =>
    powModFrom m fuel (b * b % m) (e / 2) (if e % 2 = 1 then acc * b % m else acc)

/-- `b ^ e` modulo `m`. -/
def powMod (m b e : Nat) : Nat := powModFrom m (e.log2 + 1) (b % m) e (1 % m)

def fadd (a b : Nat) : Nat := (a + b) % p

def fsub (a b : Nat) : Nat := (a + (p - b % p)) % p

def fmul (a b : Nat) : Nat := a * b % p

/-- The inverse of a field element; zero for zero. -/
def finv (a : Nat) : Nat := powMod p a (p - 2)

theorem powModFrom_eq (m fuel b e acc : Nat) (h : e < 2 ^ fuel) (ha : acc < m) :
    powModFrom m fuel b e acc = acc * b ^ e % m := by
  induction fuel generalizing b e acc with
  | zero =>
    have : e = 0 := by omega
    subst this; simp [powModFrom, Nat.mod_eq_of_lt ha]
  | succ k ih =>
    have hm : 0 < m := by omega
    have he : e / 2 < 2 ^ k := by rw [Nat.pow_succ] at h; omega
    have hacc : (if e % 2 = 1 then acc * b % m else acc) < m := by
      split
      · exact Nat.mod_lt _ hm
      · exact ha
    rw [powModFrom, ih _ _ _ he hacc]
    have hsq : (b * b % m) ^ (e / 2) % m = (b * b) ^ (e / 2) % m := (Nat.pow_mod (b * b) (e / 2) m).symm
    have hpow : (b * b) ^ (e / 2) = b ^ (2 * (e / 2)) := by rw [Nat.pow_mul, Nat.pow_two]
    split
    · rename_i h1
      have hb : b ^ e = b * b ^ (2 * (e / 2)) := by
        conv => lhs; rw [show e = 2 * (e / 2) + 1 by omega, Nat.pow_succ]
        exact Nat.mul_comm _ _
      rw [Nat.mul_mod, Nat.mod_mod, hsq, ← Nat.mul_mod, hpow, hb, Nat.mul_assoc]
    · rename_i h1
      rw [Nat.mul_mod, hsq, ← Nat.mul_mod, hpow, show 2 * (e / 2) = e by omega]

theorem powMod_eq (m b e : Nat) (hm : 1 < m) : powMod m b e = b ^ e % m := by
  have h1 : 1 % m = 1 := Nat.mod_eq_of_lt hm
  rw [powMod, powModFrom_eq _ _ _ _ _ Nat.lt_log2_self (by omega), h1, Nat.one_mul, ← Nat.pow_mod]

/-! ## Points -/

/-- A point of the curve. -/
inductive Point where
  | infinity
  | affine (x y : Nat)
  deriving DecidableEq, Repr, Inhabited

/-- The right-hand side of the curve's equation. -/
def rhs (x : Nat) : Nat := (x * x % p * x + 7) % p

/-- Satisfies the equation, with coordinates below `p`. -/
def Point.OnCurve : Point → Prop
  | .infinity => True
  | .affine x y => x < p ∧ y < p ∧ y * y % p = rhs x

instance (q : Point) : Decidable q.OnCurve := by
  cases q <;> unfold Point.OnCurve <;> infer_instance

/-- The generator. -/
def base : Point :=
  .affine 0x79BE667EF9DCBBAC55A06295CE870B07029BFCDB2DCE28D959F2815B16F81798
    0x483ADA7726A3C4655DA4FBFC0E1108A8FD17B448A68554199C47D08FFB10D4B8

/-- The third point on the line of slope `s` through two points, reflected. -/
def chord (s x₁ y₁ x₂ : Nat) : Point :=
  let x := fsub (fsub (fmul s s) x₁) x₂
  .affine x (fsub (fmul s (fsub x₁ x)) y₁)

/-- The group law. -/
def Point.add : Point → Point → Point
  | .infinity, q => q
  | q, .infinity => q
  | .affine x₁ y₁, .affine x₂ y₂ =>
    if x₁ = x₂ then
      if fadd y₁ y₂ = 0 then .infinity
      else chord (fmul (fmul 3 (fmul x₁ x₁)) (finv (fadd y₁ y₁))) x₁ y₁ x₂
    else chord (fmul (fsub y₂ y₁) (finv (fsub x₂ x₁))) x₁ y₁ x₂

/-- Projective coordinates: `x = X / Z²` and `y = Y / Z³`; `Z = 0` at infinity. -/
structure Projective where
  x : Nat
  y : Nat
  z : Nat

def Projective.infinity : Projective := ⟨1, 1, 0⟩

def Projective.double (q : Projective) : Projective :=
  let yy := fmul q.y q.y
  let s := fmul 4 (fmul q.x yy)
  let m := fmul 3 (fmul q.x q.x)
  let x := fsub (fmul m m) (fadd s s)
  ⟨x, fsub (fmul m (fsub s x)) (fmul 8 (fmul yy yy)), fmul 2 (fmul q.y q.z)⟩

/-- Sum with an affine point. -/
def Projective.addAffine (q : Projective) (x₂ y₂ : Nat) : Projective :=
  if q.z = 0 then ⟨x₂, y₂, 1⟩
  else
    let zz := fmul q.z q.z
    let h := fsub (fmul x₂ zz) q.x
    let r := fsub (fmul y₂ (fmul zz q.z)) q.y
    if h = 0 then (if r = 0 then q.double else .infinity)
    else
      let hh := fmul h h
      let hhh := fmul h hh
      let v := fmul q.x hh
      let x := fsub (fsub (fmul r r) hhh) (fadd v v)
      ⟨x, fsub (fmul r (fsub v x)) (fmul q.y hhh), fmul q.z h⟩

def Projective.toPoint (q : Projective) : Point :=
  if q.z = 0 then .infinity
  else
    let i := finv q.z
    let ii := fmul i i
    .affine (fmul q.x ii) (fmul q.y (fmul ii i))

/-- Doubles once per binary digit of `k`, from the highest of `bits` digits,
and adds the point where the digit is one. -/
def ladder (x y k : Nat) : (bits : Nat) → Projective → Projective
  | 0, q => q
  | bits + 1, q =>
    let q := q.double
    ladder x y k bits (if k.testBit bits then q.addAffine x y else q)

/-- The multiple `k` of a point, `k` reduced modulo the order. -/
def Point.mul (k : Int) : Point → Point
  | .infinity => .infinity
  | .affine x y =>
    let k := (k % n).toNat
    if k = 0 then .infinity else (ladder x y k (k.log2 + 1) .infinity).toPoint

end Ecash.Curve
