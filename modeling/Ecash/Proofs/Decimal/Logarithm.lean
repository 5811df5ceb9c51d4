import Ecash.Decimal.Logarithm

/-!
# How far a rounded logarithm falls short

The logarithm is taken as a double, and just above a large power of two it is that of the
power. There its ceiling is too low by one, but the number has come nowhere near to the
middle between the power and the next one (`lt_of_ceilLog2`).
-/
namespace Ecash.Decimal

-- Powers are core's own, whatever else is imported.
attribute [local instance (high)] instPowNat

variable {n k : Nat}

/-! ## Rounding to 53 digits -/

theorem div_le_roundHalfEven (num den : Nat) : num / den ≤ roundHalfEven num den := by
  unfold roundHalfEven
  dsimp only
  split <;> omega

/-- A number is rounded down by less than one unit in the last place. -/
theorem lt_round53 (n : Nat) : n < round53 n + 2 ^ (n.log2 - 52) := by
  unfold round53
  dsimp only
  generalize n.log2 - 52 = shift
  have hpos : 0 < 2 ^ shift := Nat.two_pow_pos shift
  have hle := Nat.mul_le_mul_right (2 ^ shift) (div_le_roundHalfEven n (2 ^ shift))
  have hdiv := Nat.div_add_mod' n (2 ^ shift)
  have hmod := Nat.mod_lt n hpos
  omega

/-- Rounding does not pass the power of two below. -/
theorem pow_log2_le_round53 (hn : 0 < n) : 2 ^ n.log2 ≤ round53 n := by
  unfold round53
  dsimp only
  have hsplit : 2 ^ n.log2 = 2 ^ (n.log2 - (n.log2 - 52)) * 2 ^ (n.log2 - 52) := by
    rw [← Nat.pow_add]
    congr 1
    omega
  have hlog : 2 ^ n.log2 ≤ n := Nat.log2_self_le (by omega)
  have hdiv : 2 ^ (n.log2 - (n.log2 - 52)) ≤ n / 2 ^ (n.log2 - 52) := by
    rw [Nat.le_div_iff_mul_le (Nat.two_pow_pos _), ← hsplit]
    exact hlog
  calc 2 ^ n.log2 = 2 ^ (n.log2 - (n.log2 - 52)) * 2 ^ (n.log2 - 52) := hsplit
    _ ≤ n / 2 ^ (n.log2 - 52) * 2 ^ (n.log2 - 52) := Nat.mul_le_mul_right _ hdiv
    _ ≤ _ := Nat.mul_le_mul_right _ (div_le_roundHalfEven _ _)

/-! ## The ceiling -/

/-- Only an eleventh of the power can be hidden, unless its exponent has very many digits. -/
theorem le_of_hidden {excess : Nat} (hk : 0 < k) (hbound : k < 2 ^ (50 : Nat)) (h : hidden k excess = true) :
    excess * 11 ≤ 2 ^ k := by
  have h := of_decide_eq_true h
  have hdigits : 2 ^ k.log2 ≤ 2 ^ (50 : Nat) :=
    Nat.le_trans (Nat.log2_self_le (by omega)) (Nat.le_of_lt hbound)
  have hpower : 2 ^ k * 2 ^ k.log2 ≤ 2 ^ k * 2 ^ (50 : Nat) := Nat.mul_le_mul_left _ hdigits
  omega

/-- The ceiling is right, or it is the exponent of the power below, and the number is far
from the next one. -/
theorem ceilLog2_cases (hn : 0 < n.log2) (hbound : n.log2 < 2 ^ (50 : Nat)) :
    n.log2 + 1 ≤ ceilLog2 n ∨ ceilLog2 n = n.log2 ∧ n < 2 ^ n.log2 + 2 ^ (n.log2 - 1) := by
  have hround : 2 ^ n.log2 ≤ round53 n := by
    refine pow_log2_le_round53 (Nat.pos_of_ne_zero ?_)
    rintro rfl
    exact absurd hn (by decide)
  have hpos : 0 < 2 ^ n.log2 := Nat.two_pow_pos _
  have hlog : n.log2 ≤ (round53 n).log2 := (Nat.le_log2 (by omega)).mpr hround
  unfold ceilLog2
  dsimp only
  split
  · rename_i hhidden
    by_cases hup : n.log2 < (round53 n).log2
    · exact .inl hup
    have hsame : (round53 n).log2 = n.log2 := by omega
    rw [hsame] at hhidden
    have hexcess := le_of_hidden hn hbound hhidden
    have hrest := lt_round53 n
    have hhalf : 2 ^ n.log2 = 2 * 2 ^ (n.log2 - 1) := by
      rw [← Nat.pow_succ']
      congr 1
      omega
    -- the unit in the last place is one, or small next to the power
    have hunit : 2 ^ (n.log2 - 52) = 1 ∨ 2 * 2 ^ (n.log2 - 52) ≤ 2 ^ (n.log2 - 1) := by
      by_cases hsmall : n.log2 ≤ 52
      · left
        rw [Nat.sub_eq_zero_of_le hsmall, Nat.pow_zero]
      · right
        rw [← Nat.pow_succ']
        exact Nat.pow_le_pow_right (by decide) (by omega)
    exact .inr ⟨hsame, by omega⟩
  · exact .inl (by omega)

/-- Unless it has very many digits, a number is less than one and a half times the power
whose exponent is the ceiling of its logarithm, or is one. -/
theorem lt_of_ceilLog2 (hbound : n.log2 < 2 ^ (50 : Nat)) :
    n < 2 ^ max (ceilLog2 n) 1 + 2 ^ (max (ceilLog2 n) 1 - 1) := by
  have hlt : n < 2 ^ (n.log2 + 1) := Nat.lt_log2_self
  have hpos : 0 < 2 ^ (max (ceilLog2 n) 1 - 1) := Nat.two_pow_pos _
  rcases Nat.eq_zero_or_pos n.log2 with hzero | hn
  · have hmono : 2 ^ (1 : Nat) ≤ 2 ^ max (ceilLog2 n) 1 := Nat.pow_le_pow_right (by decide) (by omega)
    rw [hzero] at hlt
    omega
  obtain hright | ⟨hlow, hfar⟩ := ceilLog2_cases hn hbound
  · have hmono : 2 ^ (n.log2 + 1) ≤ 2 ^ max (ceilLog2 n) 1 :=
      Nat.pow_le_pow_right (by decide) (by omega)
    omega
  · rw [hlow, Nat.max_eq_left hn]
    exact hfar

end Ecash.Decimal
