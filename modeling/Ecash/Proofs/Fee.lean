import Ecash.Proofs.Outcome
import Ecash.Fee
import Mathlib.Algebra.Order.Floor.Ring
import Mathlib.Data.Rat.Floor
import Mathlib.Tactic.Ring
import Mathlib.Tactic.NormNum

/-!
# Rounding fees

`ceilPpk` is the ceiling of a quotient by 1000; everything else known about it
follows from `ceilPpk_le_iff`. So the fee for proofs is what the mint charges
for them (`forProofs_eq_charge`).
-/
namespace Ecash.Fee

theorem ceilPpk_le_iff {ppk n : Int} : ceilPpk ppk ≤ n ↔ ppk ≤ n * 1000 := by
  unfold ceilPpk
  rw [Int.fdiv_eq_ediv_of_nonneg _ (by decide)]
  omega

theorem ceilPpk_eq_ceil (ppk : Int) : ceilPpk ppk = ⌈(ppk : ℚ) / 1000⌉ := by
  refine eq_of_forall_ge_iff fun n => ?_
  rw [ceilPpk_le_iff, Int.ceil_le, div_le_iff₀ (by norm_num)]
  norm_cast

@[simp]
theorem ceilPpk_zero : ceilPpk 0 = 0 := by decide

/-- The fee for inputs of one rate is enough for them. -/
theorem ceilPpk_le_forInputs (n ppk : Int) : ceilPpk (n * ppk) ≤ forInputs n ppk := by
  unfold forInputs ceilPpk
  rw [Int.fdiv_eq_ediv_of_nonneg _ (by decide), Int.fdiv_eq_ediv_of_nonneg _ (by decide)]
  omega

theorem forInputs_nonneg (n ppk : Int) : 0 ≤ forInputs n ppk := Int.le_max_right _ _

/-- More inputs cost no less. -/
theorem forInputs_mono {m n ppk : Int} (hp : 0 ≤ ppk) (h : m ≤ n) : forInputs m ppk ≤ forInputs n ppk := by
  have hmul : m * ppk ≤ n * ppk := Int.mul_le_mul_of_nonneg_right h hp
  unfold forInputs
  rw [Int.fdiv_eq_ediv_of_nonneg _ (by decide), Int.fdiv_eq_ediv_of_nonneg _ (by decide)]
  omega

/-! ## Fees of proofs -/

/-- What the mint charges for spending proofs together: the sum of their rates, in
thousandths, rounded up. -/
def charge (chain : KeyChain) (qs : List Proof) : Outcome Int := do
  let rates ← qs.mapM (proofPpk chain)
  return ⌈(rates.sum : ℚ) / 1000⌉

theorem forProofs_eq_charge (chain : KeyChain) (qs : List Proof) :
    forProofs chain qs = charge chain qs := by
  simp only [forProofs, charge, ceilPpk_eq_ceil]

/-- Proofs of one keyset are charged at most what is planned for so many inputs. -/
theorem forProofs_of_keyset {chain : KeyChain} {id : Json} {rate : Int} (hr : ppk chain id = .ok rate)
    {qs : List Proof} (h : ∀ q ∈ qs, q.keyset = id) :
    ∃ fee, forProofs chain qs = .ok fee ∧ fee ≤ forInputs qs.length rate := by
  have hm : qs.mapM (proofPpk chain) = .ok (List.replicate qs.length rate) := by
    induction qs with
    | nil => rfl
    | cons q qs ih =>
      rw [List.forall_mem_cons] at h
      have hq : proofPpk chain q = .ok rate := by rw [proofPpk, h.1, hr]
      rw [List.mapM_cons, hq, ih h.2]
      rfl
  refine ⟨ceilPpk (qs.length * rate), ?_, ceilPpk_le_forInputs _ _⟩
  rw [forProofs, hm]
  simp [bind, Except.bind, pure, Except.pure]

end Ecash.Fee
