import Ecash.Proofs.Bytes
import Ecash.Proofs.Curve.Prime
import Ecash.Suite
import Mathlib.FieldTheory.Finite.Basic

/-!
# The compressed form of a point is exact

`p` is prime and one less than a multiple of four, so that the power which reading takes is a
root wherever there is one (`root_sq`). There are two of them, one even and one odd, as none is
zero: minus seven is not a cube (`cube_add_seven_ne_zero`). So bytes are read as the one point of
the curve that has their `x` and the parity of their tag (`decode_ok_iff`), and reading and
writing undo each other (`compressed_exact`).
-/
namespace Ecash.Curve

variable {x y z : Nat} {tag : UInt8} {bs rest : Bytes} {q : Point}

instance : Fact p.Prime := ⟨prime_p⟩

/-! ## Square roots -/

/-- Modulo a prime that is one less than a multiple of four, a power is a root of every square. -/
theorem pow_quarter_sq {m : Nat} [Fact m.Prime] (hm : m % 4 = 3) {a : ZMod m} (ha : IsSquare a) :
    (a ^ ((m + 1) / 4)) ^ 2 = a := by
  obtain ⟨z, rfl⟩ := ha
  have hexp : 2 * ((m + 1) / 4) * 2 = m + 1 := by omega
  calc ((z * z) ^ ((m + 1) / 4)) ^ 2 = z ^ (2 * ((m + 1) / 4) * 2) := by rw [← pow_two, pow_mul, pow_mul]
    _ = z ^ m * z := by rw [hexp, pow_succ]
    _ = z * z := by rw [ZMod.pow_card]

theorem cast_rhs (x : Nat) : (rhs x : ZMod p) = (x : ZMod p) ^ 3 + 7 := by
  simp only [rhs, ZMod.natCast_mod, Nat.cast_add, Nat.cast_mul, Nat.cast_ofNat]
  ring

theorem mul_self_mod_iff (x y : Nat) : y * y % p = rhs x ↔ (y : ZMod p) ^ 2 = (x : ZMod p) ^ 3 + 7 := by
  have hlt : rhs x < p := Nat.mod_lt _ prime_p.pos
  rw [← cast_rhs, pow_two, ← Nat.cast_mul, ZMod.natCast_eq_natCast_iff', Nat.mod_eq_of_lt hlt]

theorem powMod_lt (b e : Nat) : powMod p b e < p := by
  rw [powMod_eq p b e prime_p.one_lt]
  exact Nat.mod_lt _ prime_p.pos

/-- The power that reading takes is a root if there is any. -/
theorem root_sq (h : y * y % p = rhs x) :
    powMod p (rhs x) ((p + 1) / 4) * powMod p (rhs x) ((p + 1) / 4) % p = rhs x := by
  rw [mul_self_mod_iff] at h ⊢
  rw [powMod_eq p _ _ prime_p.one_lt, ZMod.natCast_mod, Nat.cast_pow, cast_rhs]
  exact pow_quarter_sq (by decide +kernel) ⟨y, by rw [← h, pow_two]⟩

/-- Minus seven is not a cube: as a third of `p - 1`, cubes give one. -/
theorem cube_add_seven_ne_zero (x : Nat) : (x : ZMod p) ^ 3 + 7 ≠ 0 := by
  intro h
  have hcube : ((p - 7 : Nat) : ZMod p) = (x : ZMod p) ^ 3 := by
    rw [Nat.cast_sub (by decide +kernel), CharP.cast_eq_zero, zero_sub, eq_comm]
    exact eq_neg_of_add_eq_zero_left h
  have hx : (x : ZMod p) ≠ 0 := by
    intro hx
    rw [hx, zero_pow (by decide), ← Nat.cast_zero, ZMod.natCast_eq_natCast_iff'] at hcube
    exact absurd hcube (by decide +kernel)
  have hne : powMod p (p - 7) ((p - 1) / 3) ≠ 1 := by decide +kernel
  refine hne ((powMod_eq_one_iff prime_p.one_lt _ _).mpr ?_)
  rw [hcube, ← pow_mul, show 3 * ((p - 1) / 3) = p - 1 by decide +kernel, ZMod.pow_card_sub_one_eq_one hx]

/-! ## The two points over an `x` -/

namespace Point.OnCurve

theorem pos (h : (affine x y).OnCurve) : 0 < y := by
  obtain ⟨-, -, heq⟩ := h
  rw [mul_self_mod_iff] at heq
  refine Nat.pos_of_ne_zero fun hy => cube_add_seven_ne_zero x ?_
  rw [← heq, hy, Nat.cast_zero, zero_pow (by decide)]

theorem mirror (h : (affine x y).OnCurve) : (affine x (p - y)).OnCurve := by
  have hy := h.pos
  obtain ⟨hx, hlt, heq⟩ := h
  refine ⟨hx, by omega, ?_⟩
  rw [mul_self_mod_iff] at heq ⊢
  rw [Nat.cast_sub hlt.le, CharP.cast_eq_zero, zero_sub, neg_sq, heq]

theorem rootFor (h : (affine x y).OnCurve) (tag : UInt8) : (affine x (rootFor tag y)).OnCurve := by
  unfold Curve.rootFor
  split
  · exact h
  · exact h.mirror

/-- Points with the same `x` are the same or mirror each other. -/
theorem eq_or_mirror (hy : (affine x y).OnCurve) (hz : (affine x z).OnCurve) : y = z ∨ y = p - z := by
  have hpos := hz.pos
  obtain ⟨-, hylt, hyeq⟩ := hy
  obtain ⟨-, hzlt, hzeq⟩ := hz
  rw [mul_self_mod_iff] at hyeq hzeq
  obtain h | h := sq_eq_sq_iff_eq_or_eq_neg.mp (hyeq.trans hzeq.symm)
  · left
    rwa [ZMod.natCast_eq_natCast_iff', Nat.mod_eq_of_lt hylt, Nat.mod_eq_of_lt hzlt] at h
  · right
    rwa [← zero_sub, ← CharP.cast_eq_zero (ZMod p) p, ← Nat.cast_sub hzlt.le,
      ZMod.natCast_eq_natCast_iff', Nat.mod_eq_of_lt hylt, Nat.mod_eq_of_lt (by omega)] at h

end Point.OnCurve

theorem odd_p : p % 2 = 1 := by decide +kernel

theorem rootFor_even_iff (hy : y < p) : rootFor tag y % 2 = 0 ↔ tag = 2 := by
  have := odd_p
  unfold rootFor
  by_cases htag : tag = 2 <;> by_cases heven : y % 2 = 0 <;> simp [htag, heven] <;> omega

/-- Of the points with one `x`, one has an even `y` and one an odd. -/
theorem Point.OnCurve.eq_of_parity (hy : (affine x y).OnCurve) (hz : (affine x z).OnCurve)
    (h : y % 2 = 0 ↔ z % 2 = 0) : y = z := by
  obtain rfl | rfl := hy.eq_or_mirror hz
  · rfl
  · have := odd_p
    have := hz.2.1
    omega

/-- There are points over `x` where the equation's right-hand side is a square. -/
theorem exists_onCurve_iff (hx : x < p) :
    (∃ y, (Point.affine x y).OnCurve) ↔ IsSquare ((x : ZMod p) ^ 3 + 7) := by
  constructor
  · rintro ⟨y, -, -, heq⟩
    rw [mul_self_mod_iff] at heq
    exact ⟨y, by rw [← heq, pow_two]⟩
  · rintro ⟨z, hz⟩
    refine ⟨z.val, hx, z.val_lt, ?_⟩
    rw [mul_self_mod_iff, ZMod.natCast_zmod_val, hz, pow_two]

/-! ## Reading -/

/-- Bytes are read as the point of the curve with their `x` whose `y` is even for the tag two. -/
theorem decode_ok_iff : decode bs = .ok q ↔ ∃ tag rest y, bs = tag :: rest ∧ bs.length = 33 ∧
    (tag = 2 ∨ tag = 3) ∧ q = .affine (Bytes.toNat rest) y ∧ q.OnCurve ∧ (y % 2 = 0 ↔ tag = 2) := by
  constructor
  · intro h
    unfold decode at h
    split at h
    · cases h
    rename_i tag rest
    dsimp only at h
    split_ifs at h with hlength htag hrange hroot
    cases h
    have hlt := powMod_lt (rhs (Bytes.toNat rest)) ((p + 1) / 4)
    have hon : (Point.affine (Bytes.toNat rest) (powMod p (rhs (Bytes.toNat rest)) ((p + 1) / 4))).OnCurve :=
      ⟨not_le.mp hrange, hlt, not_not.mp hroot⟩
    exact ⟨tag, rest, _, rfl, not_not.mp hlength, or_iff_not_and_not.mpr htag, rfl, hon.rootFor tag,
      rootFor_even_iff hlt⟩
  · rintro ⟨tag, rest, y, rfl, hlength, htag, rfl, hon, heven⟩
    have hroot := root_sq hon.2.2
    have hlt := powMod_lt (rhs (Bytes.toNat rest)) ((p + 1) / 4)
    have hy : rootFor tag (powMod p (rhs (Bytes.toNat rest)) ((p + 1) / 4)) = y :=
      (Point.OnCurve.rootFor ⟨hon.1, hlt, hroot⟩ tag).eq_of_parity hon
        ((rootFor_even_iff hlt).trans heven.symm)
    unfold decode
    dsimp only
    rw [if_neg (not_not.mpr hlength), if_neg (or_iff_not_and_not.mp htag), if_neg (not_le.mpr hon.1),
      if_neg (not_not.mpr hroot), hy]

/-- Bytes that stand for a point: a tag, and an `x` over which the curve has points. -/
def Compressed (bs : Bytes) : Prop :=
  ∃ tag rest, bs = tag :: rest ∧ bs.length = 33 ∧ (tag = 2 ∨ tag = 3) ∧ Bytes.toNat rest < p ∧
    IsSquare ((Bytes.toNat rest : ZMod p) ^ 3 + 7)

theorem decode_isOk_iff : (∃ q, decode bs = .ok q) ↔ Compressed bs := by
  constructor
  · rintro ⟨q, h⟩
    obtain ⟨tag, rest, y, rfl, hlength, htag, rfl, hon, -⟩ := decode_ok_iff.mp h
    exact ⟨tag, rest, rfl, hlength, htag, hon.1, (exists_onCurve_iff hon.1).mp ⟨y, hon⟩⟩
  · rintro ⟨tag, rest, rfl, hlength, htag, hlt, hsquare⟩
    obtain ⟨y, hon⟩ := (exists_onCurve_iff hlt).mpr hsquare
    exact ⟨_, decode_ok_iff.mpr
      ⟨tag, rest, _, rfl, hlength, htag, rfl, hon.rootFor tag, rootFor_even_iff hon.2.1⟩⟩

/-! ## Writing -/

/-- What was read is written as it was. -/
theorem encode_of_decode (h : decode bs = .ok q) : encode q = .ok bs := by
  obtain ⟨tag, rest, y, rfl, hlength, htag, rfl, -, heven⟩ := decode_ok_iff.mp h
  have hrest : rest.length = 32 := Nat.succ.inj hlength
  have hbytes := Bytes.ofNat_toNat rest
  rw [hrest] at hbytes
  unfold encode
  dsimp only
  rw [hbytes]
  rcases htag with rfl | rfl
  · rw [if_pos (heven.mpr rfl)]
  · rw [if_neg (mt heven.mp (by decide))]

theorem p_le : p ≤ 256 ^ 32 := by decide +kernel

/-- What is written of a point of the curve is read as the point. -/
theorem decode_of_onCurve (h : (Point.affine x y).OnCurve) :
    ∃ bs, encode (.affine x y) = .ok bs ∧ decode bs = .ok (.affine x y) := by
  have hx : Bytes.toNat (Bytes.ofNat 32 x) = x := by
    rw [Bytes.toNat_ofNat]
    exact Nat.mod_eq_of_lt (h.1.trans_le p_le)
  refine ⟨_, rfl, decode_ok_iff.mpr ⟨_, Bytes.ofNat 32 x, y, rfl, ?_, ?_, by rw [hx], h, ?_⟩⟩
  · rw [List.length_cons, Bytes.length_ofNat]
  · by_cases heven : y % 2 = 0
    · exact .inl (if_pos heven)
    · exact .inr (if_neg heven)
  · by_cases heven : y % 2 = 0
    · exact iff_of_true heven (if_pos heven)
    · rw [if_neg heven]
      exact iff_of_false heven (by decide)

/-- Exactly those bytes are read that are 33, start with two or three, and go on with an `x`
below `p` whose `x³ + 7` is a square modulo `p`. They are read as a point of the curve with this
`x` and an even `y` just for the tag two, and written again as they were. Every point of the
curve but the one at infinity is written as bytes that are read as the point, and so is their
hexadecimal form. -/
theorem compressed_exact :
    (∀ bs, (∃ q, decode bs = .ok q) ↔ Compressed bs) ∧
      (∀ tag rest q, decode (tag :: rest) = .ok q → q.OnCurve ∧
        (∃ y, q = .affine (Bytes.toNat rest) y ∧ (y % 2 = 0 ↔ tag = 2)) ∧
        encode q = .ok (tag :: rest)) ∧
      ∀ x y, (Point.affine x y).OnCurve → ∃ bs, encode (.affine x y) = .ok bs ∧
        decode bs = .ok (.affine x y) ∧ Suite.secp256k1.pointHex (.affine x y) = .ok bs.hex ∧
        Suite.secp256k1.pointOfHex bs.hex = .ok (.affine x y) := by
  refine ⟨fun bs => decode_isOk_iff, fun tag rest q h => ?_, fun x y hon => ?_⟩
  · have hwritten := encode_of_decode h
    obtain ⟨_, _, y, ⟨⟩, -, -, rfl, hon, heven⟩ := decode_ok_iff.mp h
    exact ⟨hon, ⟨y, rfl, heven⟩, hwritten⟩
  · obtain ⟨bs, hwrite, hread⟩ := decode_of_onCurve hon
    refine ⟨bs, hwrite, hread, ?_, ?_⟩
    · unfold Suite.pointHex
      rw [show Suite.secp256k1.encode (.affine x y) = .ok bs from hwrite]
    · unfold Suite.pointOfHex
      rw [Bytes.ofHex?_hex]
      exact congrArg (Except.mapError Failure.point) hread

end Ecash.Curve
