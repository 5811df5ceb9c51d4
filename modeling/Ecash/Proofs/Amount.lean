import Ecash.Amount.Split
import Ecash.Proofs.Outcome
import Mathlib.Algebra.BigOperators.Group.List.Basic
import Mathlib.Algebra.Ring.Int.Defs

/-!
# Parts add up

Whatever the denominations are, a split of an amount that is not negative adds
up to that amount (`canonical_sum`, `keepAmounts_sum`). What is left over is less
than any denomination, so nothing is where there is a denomination of one
(`canonical_total`).
-/
namespace Ecash.Amount

variable {value : Int} {keys parts : List Int}

/-- A denomination that is not positive is passed over. -/
theorem greedy_skip {d : Int} (hd : d ≤ 0) (ds : List Int) (v : Int) :
    greedy (d :: ds) v = greedy ds v := by
  rw [greedy, if_pos hd]

/-- One step of a greedy split. -/
theorem greedy_cons {d : Int} (hd : 0 < d) (ds : List Int) (v : Int) : greedy (d :: ds) v =
    (List.replicate (v.fdiv d).toNat d ++ (greedy ds (v.fmod d)).1, (greedy ds (v.fmod d)).2) := by
  rw [greedy, if_neg (by omega)]

/-- Parts and what is left make up the value. -/
theorem greedy_sum (ds : List Int) (h : 0 ≤ value) :
    (greedy ds value).1.sum + (greedy ds value).2 = value := by
  fun_induction greedy ds value with
  | case1 value => simp
  | case2 d ds value hd ih => exact ih h
  | case3 d ds value hd parts rest hg ih =>
    have hm := ih (Int.fmod_nonneg h (by omega))
    rw [hg] at hm
    have hq : 0 ≤ value.fdiv d := Int.fdiv_nonneg h (by omega)
    have hv := Int.mul_fdiv_add_fmod value d
    have hs : (List.replicate (value.fdiv d).toNat d).sum = d * value.fdiv d := by
      rw [List.sum_replicate, nsmul_eq_mul, Int.toNat_of_nonneg hq, Int.mul_comm]
    rw [List.sum_append, hs, Int.add_assoc, hm, hv]

theorem sort_perm (order : Order) (amounts : List Int) : (order.sort amounts).Perm amounts := by
  cases order with
  | ascending => exact List.mergeSort_perm _ _
  | descending => exact List.mergeSort_perm _ _

theorem mem_ascending {a : Int} {amounts : List Int} : a ∈ ascending amounts ↔ a ∈ amounts :=
  (sort_perm .ascending amounts).mem_iff

theorem mem_descending {a : Int} {amounts : List Int} : a ∈ descending amounts ↔ a ∈ amounts :=
  (sort_perm .descending amounts).mem_iff

theorem descending_pairwise (amounts : List Int) : (descending amounts).Pairwise (· ≥ ·) := by
  have hsorted : (descending amounts).Pairwise fun a b => decide (b ≤ a) = true :=
    List.pairwise_mergeSort (by simp; omega) (by simp; omega) amounts
  exact hsorted.imp of_decide_eq_true

theorem ascending_pairwise (amounts : List Int) : (ascending amounts).Pairwise (· ≤ ·) := by
  have hsorted : (ascending amounts).Pairwise fun a b => decide (a ≤ b) = true :=
    List.pairwise_mergeSort (by simp; omega) (by simp; omega) amounts
  exact hsorted.imp of_decide_eq_true

theorem ascending_sum (amounts : List Int) : (ascending amounts).sum = amounts.sum :=
  (sort_perm .ascending amounts).sum_eq

theorem split_sum {pins : List Int} {order : Order} (hp : pins.sum ≤ value)
    (h : split value keys pins order = .ok parts) : parts.sum = value := by
  obtain ⟨_, -, h⟩ := Outcome.bind_ok_iff.mp h
  dsimp only at h
  split at h
  · exact absurd h Outcome.refuse_ne_ok
  · rename_i hr
    cases h
    have hrest : 0 ≤ value - pins.sum := by omega
    have hs := greedy_sum (descending keys) hrest
    rw [(sort_perm order _).sum_eq, List.sum_append]
    omega

theorem canonical_sum (hv : 0 ≤ value) (h : canonical value keys = .ok parts) : parts.sum = value :=
  split_sum (by simpa using hv) h

/-! ## What is left -/

/-- What is left fits into no denomination. -/
theorem greedy_rest (ds : List Int) (h : 0 ≤ value) :
    0 ≤ (greedy ds value).2 ∧ (greedy ds value).2 ≤ value ∧
      ∀ d ∈ ds, 0 < d → (greedy ds value).2 < d := by
  fun_induction greedy ds value with
  | case1 value => simp [h]
  | case2 d ds value hd ih =>
    obtain ⟨h₁, h₂, h₃⟩ := ih h
    refine ⟨h₁, h₂, fun e he hpos => ?_⟩
    rcases List.mem_cons.mp he with rfl | he
    · omega
    · exact h₃ e he hpos
  | case3 d ds value hd parts rest hg ih =>
    have hlt : value.fmod d < d := Int.fmod_lt_of_pos _ (by omega)
    have hle : value.fmod d ≤ value := by
      have hv := Int.mul_fdiv_add_fmod value d
      have hq : 0 ≤ d * value.fdiv d := Int.mul_nonneg (by omega) (Int.fdiv_nonneg h (by omega))
      omega
    obtain ⟨h₁, h₂, h₃⟩ := ih (Int.fmod_nonneg h (by omega))
    rw [hg] at h₁ h₂ h₃
    dsimp only at h₁ h₂ h₃ ⊢
    refine ⟨h₁, by omega, fun e he hpos => ?_⟩
    rcases List.mem_cons.mp he with rfl | he
    · omega
    · exact h₃ e he hpos

/-- If nothing is left, the canonical parts are the greedy ones. -/
theorem canonical_of_greedy (hrest : (greedy (descending keys) value).2 = 0) :
    canonical value keys = .ok (ascending (greedy (descending keys) value).1) := by
  unfold canonical split
  simp [hrest, pinned, Order.sort]

/-- With a denomination of one, every amount has parts. -/
theorem canonical_total (hone : 1 ∈ keys) (hv : 0 ≤ value) :
    ∃ parts, canonical value keys = .ok parts := by
  have hmem : 1 ∈ descending keys := mem_descending.mpr hone
  obtain ⟨h₁, -, h₃⟩ := greedy_rest (descending keys) hv
  have hlt := h₃ 1 hmem (by decide)
  exact ⟨_, canonical_of_greedy (by omega)⟩

/-! ## Topping up -/

theorem topUp_sum_le {d limit total : Int} {n : Nat} (h : total ≤ limit) :
    total + (topUp d limit n total).sum ≤ limit := by
  induction n generalizing total with
  | zero => simpa [topUp] using h
  | succ n ih =>
    unfold topUp
    split
    · simpa using h
    · have hrest : total + d + (topUp d limit n (total + d)).sum ≤ limit := ih (by omega)
      rw [List.sum_cons]
      omega

theorem topUps_sum_le {held ds : List Int} {limit target total : Int} (h : total ≤ limit) :
    total + (topUps held limit target ds total).sum ≤ limit := by
  induction ds generalizing total with
  | nil => simpa [topUps] using h
  | cons d ds ih =>
    have hrest := ih (topUp_sum_le (d := d) (n := (target - held.count d).toNat) h)
    unfold topUps
    rw [List.sum_append]
    omega

theorem keepAmounts_sum {held : List Int} {target : Int} (hv : 0 ≤ value)
    (h : keepAmounts held value keys target = .ok parts) : parts.sum = value := by
  have hwanted : 0 + (topUps held value target (ascending keys) 0).sum ≤ value := topUps_sum_le hv
  unfold keepAmounts at h
  dsimp only at h
  split at h
  · cases h
    rw [ascending_sum]
    omega
  · obtain ⟨more, hmore, h⟩ := Outcome.bind_ok_iff.mp h
    cases h
    have hrest := canonical_sum (by omega) hmore
    rw [ascending_sum, List.sum_append]
    omega

/-! ## Parts of nothing -/

theorem greedy_zero (ds : List Int) : greedy ds 0 = ([], 0) := by
  induction ds with
  | nil => rfl
  | cons d ds ih => simp [greedy, ih]

theorem canonical_zero (keys : List Int) : canonical 0 keys = .ok [] := by
  have hnil : ascending [] = [] := List.mergeSort_nil
  unfold canonical split
  simp only [List.sum_nil, Int.sub_zero, greedy_zero]
  change Except.ok (ascending []) = _
  rw [hnil]

/-- An amount above zero has parts. -/
theorem ne_nil_of_sum (hv : 0 < value) (h : parts.sum = value) : parts ≠ [] := by
  rintro rfl
  rw [List.sum_nil] at h
  omega

end Ecash.Amount
