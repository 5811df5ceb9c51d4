import Ecash.Json.Same
import Mathlib.Tactic.NormNum

/-!
# What equal values share

Values that count as one are absent together (`truthy_of_same`). A double counts
as absent when it is a zero of either sign; these are the doubles whose whole
number is zero (`whole?_eq_zero_iff`).
-/
namespace Ecash

namespace Decimal

open Float.Model.UnpackedFloat (unpackMantissa unpackExponent unpackSign)

/-- Only a zero compares equal to zero. -/
theorem compare_zero_iff (u : Float.Model.UnpackedFloat) :
    (u.compare (.zero .positive) == some .eq) = true ↔ ∃ s, u = .zero s := by
  cases u with
  | infinity s => cases s <;> exact iff_of_false Bool.false_ne_true (by rintro ⟨_, ⟨⟩⟩)
  | notANumber => exact iff_of_false Bool.false_ne_true (by rintro ⟨_, ⟨⟩⟩)
  | zero s => exact iff_of_true rfl ⟨s, rfl⟩
  | finite s m e hm => cases s <;> exact iff_of_false Bool.false_ne_true (by rintro ⟨_, ⟨⟩⟩)

/-- A zero has no exponent and no mantissa. -/
theorem unpack_eq_zero_iff (b : BitVec 64) :
    (∃ s, Float.Model.UnpackedFloat.unpack .binary64 b = .zero s) ↔
      @unpackExponent .binary64 b = 0#_ ∧ @unpackMantissa .binary64 b = 0#_ := by
  unfold Float.Model.UnpackedFloat.unpack
  dsimp only
  by_cases hall : @unpackExponent .binary64 b = -1#_
  · have hne : @unpackExponent .binary64 b ≠ 0#_ := by rw [hall]; decide
    rw [if_pos hall]
    split <;> simp [hne]
  rw [if_neg hall]
  by_cases he : @unpackExponent .binary64 b = 0#_
  · rw [if_pos he]
    by_cases hm : @unpackMantissa .binary64 b = 0#_
    · rw [dif_pos hm]
      exact iff_of_true ⟨_, rfl⟩ ⟨he, hm⟩
    · rw [dif_neg hm]
      exact iff_of_false (by rintro ⟨_, ⟨⟩⟩) fun h => hm h.2
  · rw [if_neg he]
    exact iff_of_false (by rintro ⟨_, ⟨⟩⟩) fun h => he h.1

/-- The bits of a zero, but for the sign, are all zero. -/
theorem beq_zero_iff (x : Float) : (x == 0) = true ↔
    x.toBits.toNat / 2 ^ 52 % 2048 = 0 ∧ x.toBits.toNat % 2 ^ 52 = 0 := by
  have h0 : (0 : Float).toModel.unpack = .zero .positive := by rfl
  change (x.toModel.unpack.compare (0 : Float).toModel.unpack == some .eq) = true ↔ _
  rw [h0, compare_zero_iff]
  change (∃ s, Float.Model.UnpackedFloat.unpack .binary64 x.toModel.toBits.toBitVec = .zero s) ↔
    x.toModel.toBits.toBitVec.toNat / 2 ^ 52 % 2048 = 0 ∧
      x.toModel.toBits.toBitVec.toNat % 2 ^ 52 = 0
  generalize x.toModel.toBits.toBitVec = b
  have he : (@unpackExponent .binary64 b).toNat = b.toNat / 2 ^ 52 % 2048 := by
    simp [unpackExponent, BitVec.extractLsb, Nat.shiftRight_eq_div_pow]
  have hm : (@unpackMantissa .binary64 b).toNat = b.toNat % 2 ^ 52 := by
    simp [unpackMantissa, BitVec.extractLsb]
  have hz {w : Nat} (v : BitVec w) : v.toNat = 0 ↔ v = 0#w := by
    rw [BitVec.toNat_eq, BitVec.toNat_ofNat, Nat.zero_mod]
  rw [← he, ← hm, hz, hz]
  exact unpack_eq_zero_iff b

theorem ratio?_eq_some {x : Float} {n : Int} {d : Nat} (h : ratio? x = some (n, d)) :
    0 < d ∧ (n = 0 ↔ x.toBits.toNat / 2 ^ 52 % 2048 = 0 ∧ x.toBits.toNat % 2 ^ 52 = 0) := by
  obtain ⟨p, hp, h⟩ := Option.map_eq_some_iff.mp h
  have hs : 0 < (scaled p.mantissa 1 (-p.exponent)).2 ∧
      ((scaled p.mantissa 1 (-p.exponent)).1 = 0 ↔ p.mantissa = 0) := by
    unfold scaled
    split <;> simp
  have hm : p.mantissa = 0 ↔
      x.toBits.toNat / 2 ^ 52 % 2048 = 0 ∧ x.toBits.toNat % 2 ^ 52 = 0 := by
    unfold parts? at hp
    dsimp only at hp
    split at hp
    · cases hp
    · split at hp <;> cases hp <;> dsimp only <;> omega
  simp only [Prod.mk.injEq] at h
  obtain ⟨rfl, rfl⟩ := h
  refine ⟨hs.1, ?_⟩
  rw [← hm, ← hs.2]
  split <;> simp

/-- A double whose whole number is zero is a zero. -/
theorem whole?_eq_zero_iff (x : Float) : whole? x = some 0 ↔ (x == 0) = true := by
  rw [beq_zero_iff]
  cases h : ratio? x with
  | none =>
    have hp : x.toBits.toNat / 2 ^ 52 % 2048 = 2047 := by
      rw [ratio?, Option.map_eq_none_iff, parts?] at h
      split at h
      · assumption
      · split at h <;> cases h
    rw [hp, whole?, h]
    simp
  | some r =>
    obtain ⟨n, d⟩ := r
    obtain ⟨hd, hn⟩ := ratio?_eq_some h
    rw [← hn, whole?, h, Option.bind_some]
    dsimp only
    constructor
    · intro hw
      split at hw
      · rename_i hmod
        have hq : n / (d : Int) = 0 := by simpa using hw
        rw [← Int.mul_ediv_add_emod n d, hq, hmod, Int.mul_zero, Int.add_zero]
      · cases hw
    · rintro rfl
      simp

end Decimal

namespace Json

@[simp]
theorem truthy_key (v : Json) : v.key.truthy = v.truthy := by
  cases v with
  | bool b => cases b <;> rfl
  | float x =>
    rw [key]
    split
    · rename_i n hn
      have h := Decimal.whole?_eq_zero_iff x
      rw [hn, Option.some.injEq] at h
      by_cases h0 : n = 0
      · simp [truthy, bne, h0, h.mp h0]
      · simp [truthy, bne, h0, Bool.eq_false_iff.mpr (mt h.mpr h0)]
    · rfl
  | arr vs => cases vs <;> simp [key, keys, truthy]
  | obj ms =>
    rw [key, truthy, truthy, (List.mergeSort_perm _ _).isEmpty_eq]
    cases ms <;> simp [memberKeys]
  | _ => simp [key]

variable {v w : Json}

theorem truthy_of_same (h : v.same w) : v.truthy = w.truthy := by
  rw [← truthy_key v, ← truthy_key w, of_decide_eq_true h]

end Json

end Ecash
