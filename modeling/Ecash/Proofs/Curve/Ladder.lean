import Ecash.Proofs.Curve.Encoding
import Mathlib.AlgebraicGeometry.EllipticCurve.Affine.Point
import Mathlib.Tactic.LinearCombination

/-!
# Multiples of a point are those of the group

The curve's points are a group. A point in projective coordinates stands for one of them
(`Projective.Represents`), doubling and adding keep to the group's law, and so the ladder, which
goes through the digits of a number from the highest one, ends with the point's multiple by it
(`Point.mul_eq`).
-/
namespace Ecash.Curve

open WeierstrassCurve

/-! ## Arithmetic of the field -/

theorem two_lt_p : 2 < p := by
  have hle := prime_p.two_le
  have hodd := odd_p
  omega

@[simp]
theorem cast_fadd (a b : Nat) : (fadd a b : ZMod p) = a + b := by
  rw [fadd, ZMod.natCast_mod, Nat.cast_add]

@[simp]
theorem cast_fmul (a b : Nat) : (fmul a b : ZMod p) = a * b := by
  rw [fmul, ZMod.natCast_mod, Nat.cast_mul]

@[simp]
theorem cast_fsub (a b : Nat) : (fsub a b : ZMod p) = a - b := by
  have hle : b % p ≤ p := (Nat.mod_lt _ prime_p.pos).le
  rw [fsub, ZMod.natCast_mod, Nat.cast_add, Nat.cast_sub hle, ZMod.natCast_self, ZMod.natCast_mod]
  ring

@[simp]
theorem cast_finv (a : Nat) : (finv a : ZMod p) = (a : ZMod p)⁻¹ := by
  rw [finv, powMod_eq p _ _ prime_p.one_lt, ZMod.natCast_mod, Nat.cast_pow]
  have hp := two_lt_p
  have hexp : p - 2 + 1 = p - 1 := by omega
  by_cases ha : (a : ZMod p) = 0
  · rw [ha, inv_zero, zero_pow (Nat.sub_ne_zero_of_lt hp)]
  · exact eq_inv_of_mul_eq_one_left (by rw [← pow_succ, hexp, ZMod.pow_card_sub_one_eq_one ha])

theorem fmul_lt (a b : Nat) : fmul a b < p := Nat.mod_lt _ prime_p.pos

theorem fsub_lt (a b : Nat) : fsub a b < p := Nat.mod_lt _ prime_p.pos

theorem cast_eq_zero_iff {a : Nat} (ha : a < p) : (a : ZMod p) = 0 ↔ a = 0 := by
  rw [← Nat.cast_zero, ZMod.natCast_eq_natCast_iff', Nat.mod_eq_of_lt ha, Nat.zero_mod]

theorem two_ne_zero_mod : (2 : ZMod p) ≠ 0 := by
  rw [← Nat.cast_ofNat, Ne, cast_eq_zero_iff two_lt_p]
  decide

/-! ## The group -/

/-- The curve over the field. -/
def curve : Affine (ZMod p) := ⟨0, 0, 0, 0, (7 : Nat)⟩

variable {a b a₁ b₁ a₂ b₂ : ZMod p}

@[simp]
theorem curve_negY (a b : ZMod p) : curve.negY a b = -b := by
  simp [Affine.negY, curve]

theorem curve_addX (a₁ a₂ m : ZMod p) : curve.addX a₁ a₂ m = m ^ 2 - a₁ - a₂ := by
  simp [curve]

theorem curve_addY (a₁ a₂ b₁ m : ZMod p) :
    curve.addY a₁ a₂ b₁ m = m * (a₁ - curve.addX a₁ a₂ m) - b₁ := by
  rw [Affine.addY, curve_negY, Affine.negAddY]
  ring

theorem equation_iff : curve.Equation a b ↔ b ^ 2 = a ^ 3 + 7 := by
  simp [Affine.equation_iff, curve]

/-- No point of the curve has order two. -/
theorem ne_zero_of_equation (h : b ^ 2 = a ^ 3 + 7) : b ≠ 0 := by
  rintro rfl
  apply cube_add_seven_ne_zero a.val
  rw [ZMod.natCast_zmod_val, ← h, zero_pow two_ne_zero]

theorem ne_neg_of_equation (h : b ^ 2 = a ^ 3 + 7) : b ≠ -b := by
  rw [Ne, eq_neg_iff_add_eq_zero, ← two_mul]
  exact mul_ne_zero two_ne_zero_mod (ne_zero_of_equation h)

theorem nonsingular_iff : curve.Nonsingular a b ↔ b ^ 2 = a ^ 3 + 7 := by
  rw [Affine.nonsingular_iff, equation_iff]
  refine and_iff_left_of_imp fun h => .inr ?_
  simpa [curve] using ne_neg_of_equation h

/-- The slope of the tangent. -/
theorem slope_tangent (h : b ^ 2 = a ^ 3 + 7) : curve.slope a a b b * (2 * b) = 3 * a ^ 2 := by
  have hb : 2 * b ≠ 0 := mul_ne_zero two_ne_zero_mod (ne_zero_of_equation h)
  rw [Affine.slope_of_Y_ne rfl (by simpa [curve] using ne_neg_of_equation h), curve_negY,
    sub_neg_eq_add, ← two_mul, div_mul_cancel₀ _ hb]
  simp [curve]

/-- The slope of the chord. -/
theorem slope_chord (h : a₁ ≠ a₂) : curve.slope a₁ a₂ b₁ b₂ * (a₁ - a₂) = b₁ - b₂ := by
  rw [Affine.slope_of_X_ne h, div_mul_cancel₀ _ (sub_ne_zero.mpr h)]

/-- The coordinates of a point of the curve are those of a point of the group. -/
theorem Point.OnCurve.nonsingular {x y : Nat} (h : (affine x y).OnCurve) :
    curve.Nonsingular (x : ZMod p) (y : ZMod p) :=
  nonsingular_iff.mpr ((mul_self_mod_iff x y).mp h.2.2)

/-- A point of the group in coordinates below `p`. -/
def Point.ofGroup : curve.Point → Point
  | .zero => .infinity
  | .some a b _ => .affine a.val b.val

theorem Point.ofGroup_onCurve (P : curve.Point) : (ofGroup P).OnCurve := by
  cases P with
  | zero => trivial
  | some a b h =>
    refine ⟨a.val_lt, b.val_lt, ?_⟩
    rw [mul_self_mod_iff, ZMod.natCast_zmod_val, ZMod.natCast_zmod_val]
    exact nonsingular_iff.mp h

theorem Point.ofGroup_eq_infinity_iff {P : curve.Point} : ofGroup P = .infinity ↔ P = 0 := by
  cases P with
  | zero => exact iff_of_true rfl rfl
  | some a b h => exact iff_of_false nofun (Affine.Point.some_ne_zero h)

/-! ## Projective coordinates -/

namespace Projective

variable {q : Projective} {P : curve.Point}

/-- The coordinates stand for a point of the group. -/
def Represents (q : Projective) : curve.Point → Prop
  | .zero => q.z = 0
  | .some a b _ => (q.z : ZMod p) ≠ 0 ∧ (q.x : ZMod p) = a * q.z ^ 2 ∧ (q.y : ZMod p) = b * q.z ^ 3

theorem represents_infinity : infinity.Represents 0 := rfl

theorem Represents.z_eq_zero_iff (h : q.Represents P) : q.z = 0 ↔ P = 0 := by
  cases P with
  | zero => exact iff_of_true h rfl
  | some a b hns =>
    exact iff_of_false (fun hz => h.1 (by rw [hz, Nat.cast_zero])) (Affine.Point.some_ne_zero hns)

/-- The sum of two points that do not cancel. The line through them has the slope `r / z`. -/
theorem represents_add {h₁ : curve.Nonsingular a₁ b₁} {h₂ : curve.Nonsingular a₂ b₂} {r : ZMod p}
    (hne : ¬(a₁ = a₂ ∧ b₁ = -b₂)) (hz : (q.z : ZMod p) ≠ 0)
    (hr : r = curve.slope a₁ a₂ b₁ b₂ * q.z)
    (hx : (q.x : ZMod p) = r ^ 2 - (a₁ + a₂) * q.z ^ 2)
    (hy : (q.y : ZMod p) = r * (a₁ * q.z ^ 2 - q.x) - b₁ * q.z ^ 3) :
    q.Represents (.some a₁ b₁ h₁ + .some a₂ b₂ h₂) := by
  rw [Affine.Point.add_some (by rwa [curve_negY])]
  refine ⟨hz, ?_, ?_⟩
  · rw [curve_addX, hx, hr]
    ring
  · rw [curve_addY, curve_addX, hy, hx, hr]
    ring

theorem Represents.double (h : q.Represents P) : q.double.Represents (P + P) := by
  cases P with
  | zero =>
    have hz : q.z = 0 := h
    have hdouble : q.double.z = 0 := by simp [Projective.double, fmul, hz]
    exact hdouble
  | some a b hns =>
    obtain ⟨hz, hx, hy⟩ := h
    have heq := nonsingular_iff.mp hns
    have hm := slope_tangent heq
    have hz' : (q.double.z : ZMod p) = 2 * b * q.z ^ 4 := by
      simp only [Projective.double, cast_fmul, Nat.cast_ofNat, hy]
      ring
    have hr : 3 * (q.x * q.x) = curve.slope a a b b * (q.double.z : ZMod p) := by
      rw [hz', hx]
      linear_combination -(q.z : ZMod p) ^ 4 * hm
    have hs : 4 * (q.x * (q.y * q.y)) = a * (q.double.z : ZMod p) ^ 2 := by
      rw [hz', hx, hy]
      ring
    have ht : 8 * (q.y * q.y * (q.y * q.y)) = b * (q.double.z : ZMod p) ^ 3 := by
      rw [hz', hy]
      ring
    have hx' : (q.double.x : ZMod p) = (3 * (q.x * q.x)) ^ 2 - (a + a) * (q.double.z : ZMod p) ^ 2 := by
      rw [add_mul, ← hs, pow_two]
      simp only [Projective.double, cast_fadd, cast_fsub, cast_fmul, Nat.cast_ofNat]
    have hy' : (q.double.y : ZMod p) =
        3 * (q.x * q.x) * (a * (q.double.z : ZMod p) ^ 2 - q.double.x) - b * (q.double.z : ZMod p) ^ 3 := by
      rw [← hs, ← ht]
      simp only [Projective.double, cast_fadd, cast_fsub, cast_fmul, Nat.cast_ofNat]
    refine represents_add (fun h => ne_neg_of_equation heq h.2) ?_ hr hx' hy'
    rw [hz']
    exact mul_ne_zero (mul_ne_zero two_ne_zero_mod (ne_zero_of_equation heq)) (pow_ne_zero 4 hz)

/-- The sum with a point that lies over another `x`. The differences between its coordinates and
those of `q`, scaled, are `g` and `r`. -/
def chord (q : Projective) (g r : Nat) : Projective :=
  let gg := fmul g g
  let ggg := fmul g gg
  let v := fmul q.x gg
  let x := fsub (fsub (fmul r r) ggg) (fadd v v)
  ⟨x, fsub (fmul r (fsub v x)) (fmul q.y ggg), fmul q.z g⟩

theorem Represents.chord {hp : curve.Nonsingular a b} (h : q.Represents (.some a b hp))
    (hns : curve.Nonsingular a₂ b₂) (hne : a ≠ a₂) {g r : Nat} (hg : (g : ZMod p) = (a₂ - a) * q.z ^ 2)
    (hr : (r : ZMod p) = (b₂ - b) * q.z ^ 3) : (q.chord g r).Represents (.some a b hp + .some a₂ b₂ hns) := by
  obtain ⟨hz, hx, hy⟩ := h
  have hm : curve.slope a a₂ b b₂ * (a - a₂) = b - b₂ := slope_chord hne
  have hz' : ((q.chord g r).z : ZMod p) = (a₂ - a) * q.z ^ 3 := by
    simp only [Projective.chord, cast_fmul, hg]
    ring
  have hr' : (r : ZMod p) = curve.slope a a₂ b b₂ * ((q.chord g r).z : ZMod p) := by
    rw [hz', hr]
    linear_combination (q.z : ZMod p) ^ 3 * hm
  have hx' : ((q.chord g r).x : ZMod p) = r ^ 2 - (a + a₂) * ((q.chord g r).z : ZMod p) ^ 2 := by
    rw [hz']
    simp only [Projective.chord, cast_fadd, cast_fsub, cast_fmul, hg, hx]
    ring
  have hy' : ((q.chord g r).y : ZMod p) =
      r * (a * ((q.chord g r).z : ZMod p) ^ 2 - (q.chord g r).x) - b * ((q.chord g r).z : ZMod p) ^ 3 := by
    rw [hz']
    simp only [Projective.chord, cast_fadd, cast_fsub, cast_fmul, hg, hx, hy]
    ring
  refine represents_add (fun h => hne h.1) ?_ hr' hx' hy'
  rw [hz']
  exact mul_ne_zero (sub_ne_zero.mpr hne.symm) (pow_ne_zero 3 hz)

theorem Represents.addAffine {x y : Nat} (h : q.Represents P)
    (hns : curve.Nonsingular (x : ZMod p) (y : ZMod p)) :
    (q.addAffine x y).Represents (P + .some _ _ hns) := by
  cases P with
  | zero =>
    have hadd : q.addAffine x y = ⟨x, y, 1⟩ := if_pos h
    rw [hadd]
    exact ⟨by simp, by simp, by simp⟩
  | some a b hp =>
    have hz0 : q.z ≠ 0 := mt h.z_eq_zero_iff.mp (Affine.Point.some_ne_zero hp)
    obtain ⟨hz, hx, hy⟩ := id h
    let g := fsub (fmul x (fmul q.z q.z)) q.x
    let r := fsub (fmul y (fmul (fmul q.z q.z) q.z)) q.y
    have hadd : q.addAffine x y =
        if g = 0 then if r = 0 then q.double else .infinity else q.chord g r := if_neg hz0
    have hg : (g : ZMod p) = (x - a) * q.z ^ 2 := by
      simp only [g, cast_fsub, cast_fmul, hx]
      ring
    have hr : (r : ZMod p) = (y - b) * q.z ^ 3 := by
      simp only [r, cast_fsub, cast_fmul, hy]
      ring
    have hg0 : g = 0 ↔ (x : ZMod p) = a := by
      rw [← cast_eq_zero_iff (fsub_lt _ _), hg, mul_eq_zero, or_iff_left (pow_ne_zero 2 hz), sub_eq_zero]
    have hr0 : r = 0 ↔ (y : ZMod p) = b := by
      rw [← cast_eq_zero_iff (fsub_lt _ _), hr, mul_eq_zero, or_iff_left (pow_ne_zero 3 hz), sub_eq_zero]
    rw [hadd]
    split_ifs with hga hra
    · -- the same point
      have hsame : Affine.Point.some _ _ hns = .some a b hp := by
        simp only [Affine.Point.some.injEq]
        exact ⟨hg0.mp hga, hr0.mp hra⟩
      rw [hsame]
      exact h.double
    · -- the opposite point
      have hopposite : b = curve.negY (x : ZMod p) (y : ZMod p) :=
        (Affine.Y_eq_of_X_eq hp.1 hns.1 (hg0.mp hga).symm).resolve_left fun h => hra (hr0.mpr h.symm)
      rw [Affine.Point.add_of_Y_eq (hg0.mp hga).symm hopposite]
      exact represents_infinity
    · exact h.chord hns (fun h => hga (hg0.mpr h.symm)) hg hr

/-- The point that the coordinates stand for. -/
theorem Represents.toPoint (h : q.Represents P) : q.toPoint = .ofGroup P := by
  cases P with
  | zero => exact if_pos h
  | some a b hns =>
    have hz0 : q.z ≠ 0 := mt h.z_eq_zero_iff.mp (Affine.Point.some_ne_zero hns)
    obtain ⟨hz, hx, hy⟩ := h
    unfold Projective.toPoint Point.ofGroup
    rw [if_neg hz0]
    dsimp only
    have hx' : (fmul q.x (fmul (finv q.z) (finv q.z)) : ZMod p) = a := by
      simp only [cast_fmul, cast_finv, hx]
      field_simp
    have hy' : (fmul q.y (fmul (fmul (finv q.z) (finv q.z)) (finv q.z)) : ZMod p) = b := by
      simp only [cast_fmul, cast_finv, hy]
      field_simp
    rw [← hx', ← hy', ZMod.val_natCast_of_lt (fmul_lt _ _), ZMod.val_natCast_of_lt (fmul_lt _ _)]

end Projective

/-! ## The ladder -/

/-- A ladder that has come to the digits below `bits` goes on to the multiple by all of them. -/
theorem ladder_represents {x y k bits : Nat} {q : Projective}
    (hns : curve.Nonsingular (x : ZMod p) (y : ZMod p))
    (h : q.Represents ((k >>> bits) • .some _ _ hns)) :
    (ladder x y k bits q).Represents (k • .some _ _ hns) := by
  induction bits generalizing q with
  | zero => exact h
  | succ bits ih =>
    have hdigit : k >>> bits = 2 * (k >>> (bits + 1)) + (k.testBit bits).toNat := by
      rw [Nat.shiftRight_succ, Nat.toNat_testBit, ← Nat.shiftRight_eq_div_pow, Nat.div_add_mod]
    have hdouble := h.double
    rw [← add_nsmul, ← two_mul] at hdouble
    unfold ladder
    apply ih
    rw [hdigit]
    cases k.testBit bits with
    | false => simpa using hdouble
    | true =>
      rw [Bool.toNat_true, succ_nsmul]
      exact hdouble.addAffine hns

theorem ladder_mul {x y : Nat} (hns : curve.Nonsingular (x : ZMod p) (y : ZMod p)) (k : Nat) :
    (ladder x y k (k.log2 + 1) .infinity).Represents (k • .some _ _ hns) := by
  refine ladder_represents hns ?_
  have hstart : k >>> (k.log2 + 1) = 0 := by
    rw [Nat.shiftRight_eq_div_pow]
    exact Nat.div_eq_of_lt Nat.lt_log2_self
  rw [hstart, zero_nsmul]
  exact Projective.represents_infinity

theorem smul_eq_zero_iff {x y : Nat} (hns : curve.Nonsingular (x : ZMod p) (y : ZMod p)) (k : Nat) :
    k • Affine.Point.some _ _ hns = 0 ↔ (ladder x y k (k.log2 + 1) .infinity).z = 0 :=
  (ladder_mul hns k).z_eq_zero_iff.symm

/-- A multiple of a point is its multiple in the group, by the number modulo the order. -/
theorem Point.mul_eq {x y : Nat} (h : (affine x y).OnCurve) (k : Int) :
    (affine x y).mul k = ofGroup ((k % n).toNat • .some _ _ h.nonsingular) := by
  unfold mul
  dsimp only
  split
  · rename_i hk
    rw [hk, zero_nsmul]
    rfl
  · exact (ladder_mul h.nonsingular _).toPoint

end Ecash.Curve
