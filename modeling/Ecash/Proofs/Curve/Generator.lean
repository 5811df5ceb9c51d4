import Ecash.Proofs.Curve.Ladder
import Mathlib.GroupTheory.OrderOfElement

/-!
# The order of the base point

`n` is prime, by a certificate like that of the field's prime, and the ladder finds the multiple
of the base point by `n` at infinity. So its multiples by anything else are points with
coordinates (`mul_base_eq_infinity_iff`), which can be written (`encode_mul_base`).
-/
namespace Ecash.Curve

/-- The small primes of the order's certificate. -/
def orderPrimes : List Nat :=
  [2, 3, 5, 7, 11, 17, 19, 29, 41, 59, 97, 109, 113, 149, 293, 461, 631, 797, 1871, 2011, 2731, 4051,
    9349, 16699, 28181, 85831]

/-- The certificate; its last entry is for `n`. -/
def orderCertificate : List Entry :=
  [⟨4681609, 23, [2, 2, 2, 3, 97, 2011]⟩,
   ⟨107361793816595537, 3, [2, 2, 2, 2, 16699, 85831, 4681609]⟩,
   ⟨120233, 3, [2, 2, 2, 7, 19, 113]⟩,
   ⟨44706919, 6, [2, 3, 797, 9349]⟩,
   ⟨174723607534414371449, 3, [2, 2, 2, 17, 59, 4051, 120233, 44706919]⟩,
   ⟨305873, 3, [2, 2, 2, 2, 7, 2731]⟩,
   ⟨545358713, 5, [2, 2, 2, 41, 59, 28181]⟩,
   ⟨1627771, 3, [2, 3, 5, 29, 1871]⟩,
   ⟨297159362677, 2, [2, 2, 3, 3, 11, 461, 1627771]⟩,
   ⟨29047611873442575647497758179, 2, [2, 293, 305873, 545358713, 297159362677]⟩,
   ⟨341948486974166000522343609283189, 2, [2, 2, 3, 3, 3, 109, 29047611873442575647497758179]⟩,
   ⟨n, 7, [2, 2, 2, 2, 2, 2, 3, 149, 631, 107361793816595537, 174723607534414371449,
    341948486974166000522343609283189]⟩]

theorem orderPrimes_prime : ∀ q ∈ orderPrimes, q.Prime := by
  simp only [orderPrimes, List.forall_mem_cons]
  norm_num

theorem prime_n : n.Prime :=
  prime_of_certified orderPrimes_prime (by decide +kernel : certified orderPrimes orderCertificate = true)
    ⟨n, 7, _⟩ (List.mem_of_getLast? rfl)

theorem n_le : n ≤ 256 ^ 32 := by decide

theorem base_onCurve : base.OnCurve := by decide

/-- The base point in the group. -/
def generator : curve.Point := .some _ _ (Point.OnCurve.nonsingular base_onCurve)

theorem generator_ne_zero : generator ≠ 0 := WeierstrassCurve.Affine.Point.some_ne_zero _

theorem order_smul_generator : n • generator = 0 :=
  (smul_eq_zero_iff _ n).mpr (by decide +kernel)

theorem addOrderOf_generator : addOrderOf generator = n := by
  have : Fact n.Prime := ⟨prime_n⟩
  exact addOrderOf_eq_prime order_smul_generator generator_ne_zero

theorem mul_base (k : Int) : base.mul k = .ofGroup ((k % n).toNat • generator) :=
  Point.mul_eq base_onCurve k

theorem mul_base_onCurve (k : Int) : (base.mul k).OnCurve := by
  rw [mul_base]
  exact Point.ofGroup_onCurve _

/-- Multiples of the base point are at infinity by the multiples of the order alone. -/
theorem mul_base_eq_infinity_iff (k : Int) : base.mul k = .infinity ↔ (n : Int) ∣ k := by
  have hn : (n : Int) ≠ 0 := by exact_mod_cast prime_n.ne_zero
  have hlt := Int.emod_lt_of_pos k (by exact_mod_cast prime_n.pos : (0 : Int) < n)
  have hnonneg := Int.emod_nonneg k hn
  rw [mul_base, Point.ofGroup_eq_infinity_iff, ← addOrderOf_dvd_iff_nsmul_eq_zero, addOrderOf_generator,
    Int.dvd_iff_emod_eq_zero]
  constructor
  · intro h
    have := Nat.eq_zero_of_dvd_of_lt h (by omega)
    omega
  · intro h
    rw [h]
    exact dvd_zero n

/-- A multiple by a number that is positive and below the order is written as a point. -/
theorem encode_mul_base {k : Int} (hpos : 0 < k) (hlt : k < n) :
    ∃ bs, encode (base.mul k) = .ok bs ∧ bs.length = 33 ∧ decode bs = .ok (base.mul k) := by
  have hfinite : base.mul k ≠ .infinity := by
    rw [Ne, mul_base_eq_infinity_iff]
    exact fun hdvd => absurd (Int.le_of_dvd hpos hdvd) (not_le.mpr hlt)
  have hon := mul_base_onCurve k
  cases h : base.mul k with
  | infinity => exact absurd h hfinite
  | affine x y =>
    rw [h] at hon
    obtain ⟨bs, hwrite, hread⟩ := decode_of_onCurve hon
    obtain ⟨_, _, _, _, hlength, -⟩ := decode_ok_iff.mp hread
    exact ⟨bs, hwrite, hlength, hread⟩

end Ecash.Curve
