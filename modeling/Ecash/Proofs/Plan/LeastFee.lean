import Ecash.Proofs.Plan
import Mathlib.Order.Bounds.Basic

/-!
# The least fee that pays for itself

The parts of a fee are inputs when the group is spent, and cost a fee themselves. The
number of parts jumps up and down as the fee rises, so a fee may be too low although a
smaller one is not. Raising it one by one misses none: it ends with the first fee that
pays for the inputs and for its own parts (`raiseFee_run`). No fee below the one for the
inputs alone does, so the first is the least of all (`feeParts_least`).
-/
namespace Ecash.Plan

open Amount (canonical)

variable {keys parts : List Int} {ppk fee : Int} {n rounds : Nat}

/-- The fee pays for `n` inputs together with its own parts. -/
def PaysItself (keys : List Int) (ppk : Int) (n : Nat) (fee : Int) : Prop :=
  ∃ parts, canonical fee keys = .ok parts ∧ Fee.forInputs (n + parts.length) ppk ≤ fee

/-- The least of the fees, from zero on, that pay for `n` inputs and for themselves. -/
def LeastFee (keys : List Int) (ppk : Int) (n : Nat) (fee : Int) : Prop :=
  IsLeast {f | 0 ≤ f ∧ PaysItself keys ppk n f} fee

/-! ## One round -/

theorem paysItself_iff (hparts : canonical fee keys = .ok parts) :
    PaysItself keys ppk n fee ↔ Fee.forInputs (n + parts.length) ppk ≤ fee := by
  constructor
  · rintro ⟨parts', hparts', hle⟩
    obtain rfl : parts = parts' := Except.ok.inj (hparts.symm.trans hparts')
    exact hle
  · exact fun hle => ⟨parts, hparts, hle⟩

/-- A fee that pays for itself is not raised. -/
theorem raiseFee_of_pays (h : PaysItself keys ppk n fee) :
    raiseFee keys ppk n rounds fee = canonical fee keys := by
  obtain ⟨parts, hparts, hle⟩ := h
  unfold raiseFee
  rw [hparts]
  exact if_pos hle

/-- A fee that does not is given up when no round is left. -/
theorem raiseFee_zero_of_short (hparts : canonical fee keys = .ok parts)
    (h : ¬ PaysItself keys ppk n fee) : raiseFee keys ppk n 0 fee = refuse .feeDiverges := by
  rw [paysItself_iff hparts] at h
  rw [raiseFee, hparts]
  exact if_neg h

/-- In any other round it is raised by one. -/
theorem raiseFee_succ_of_short (hparts : canonical fee keys = .ok parts)
    (h : ¬ PaysItself keys ppk n fee) :
    raiseFee keys ppk n (rounds + 1) fee = raiseFee keys ppk n rounds (fee + 1) := by
  rw [paysItself_iff hparts] at h
  rw [raiseFee, hparts]
  exact if_neg h

/-! ## All rounds -/

/-- Raising ends with the first fee that pays for itself, unless none within reach does. -/
theorem raiseFee_run (ppk : Int) (n rounds : Nat) (hone : 1 ∈ keys) (hfee : 0 ≤ fee) :
    (∃ f, IsLeast {f | fee ≤ f ∧ PaysItself keys ppk n f} f ∧ f - fee ≤ rounds ∧
        raiseFee keys ppk n rounds fee = canonical f keys) ∨
      (∀ f, fee ≤ f → f - fee ≤ rounds → ¬ PaysItself keys ppk n f) ∧
        raiseFee keys ppk n rounds fee = refuse .feeDiverges := by
  induction rounds generalizing fee with
  | zero =>
    obtain ⟨parts, hparts⟩ := Amount.canonical_total hone hfee
    by_cases h : PaysItself keys ppk n fee
    · exact .inl ⟨fee, ⟨⟨le_refl _, h⟩, fun f hf => hf.1⟩, by simp, raiseFee_of_pays h⟩
    · refine .inr ⟨fun f hle hreach => ?_, raiseFee_zero_of_short hparts h⟩
      obtain rfl : fee = f := by omega
      exact h
  | succ rounds ih =>
    obtain ⟨parts, hparts⟩ := Amount.canonical_total hone hfee
    by_cases h : PaysItself keys ppk n fee
    · exact .inl ⟨fee, ⟨⟨le_refl _, h⟩, fun f hf => hf.1⟩, by omega, raiseFee_of_pays h⟩
    · rw [raiseFee_succ_of_short hparts h]
      -- `fee` itself is out, so what lies from it on lies beyond it
      have hbeyond (f : Int) (hf : fee ≤ f) (hpays : PaysItself keys ppk n f) : fee + 1 ≤ f := by
        have hne : fee ≠ f := by
          rintro rfl
          exact h hpays
        omega
      obtain ⟨f, ⟨⟨hle, hpays⟩, hleast⟩, hreach, hrun⟩ | ⟨hnone, hrun⟩ := ih (by omega : 0 ≤ fee + 1)
      · refine .inl ⟨f, ⟨⟨by omega, hpays⟩, fun g hg => ?_⟩, by omega, hrun⟩
        exact hleast ⟨hbeyond g hg.1 hg.2, hg.2⟩
      · refine .inr ⟨fun f hle hreach hpays => ?_, hrun⟩
        have hle' := hbeyond f hle hpays
        exact hnone f hle' (by omega) hpays

/-! ## The least fee -/

/-- A fee that pays for more inputs pays for these. -/
theorem PaysItself.forInputs_le (h : PaysItself keys ppk n fee) (hppk : 0 ≤ ppk) :
    Fee.forInputs n ppk ≤ fee := by
  obtain ⟨parts, -, hle⟩ := h
  have hmono : Fee.forInputs n ppk ≤ Fee.forInputs (n + parts.length) ppk :=
    Fee.forInputs_mono hppk (by omega)
  omega

/-- Looking from the fee for the inputs on, one finds the same least fee as from zero on. -/
theorem leastFee_iff (hppk : 0 ≤ ppk) : LeastFee keys ppk n fee ↔
    IsLeast {f | Fee.forInputs n ppk ≤ f ∧ PaysItself keys ppk n f} fee := by
  have hset : {f | 0 ≤ f ∧ PaysItself keys ppk n f} =
      {f | Fee.forInputs n ppk ≤ f ∧ PaysItself keys ppk n f} := by
    ext f
    constructor
    · exact fun h => ⟨h.2.forInputs_le hppk, h.2⟩
    · intro h
      have hzero := Fee.forInputs_nonneg n ppk
      exact ⟨by have := h.1; omega, h.2⟩
  unfold LeastFee
  rw [hset]

/-- The fee for spending a configured group is included in its amount. -/
theorem configure_pays {settings : Settings.Output} {seeded : Bool} {k : Keyset} {r : Request}
    {s : OutputSpec} (hfees : r.includeFees = true) (h : configure settings seeded k r = .ok s) :
    r.amount ≤ s.amount - ⌈((s.denominations.length * k.inputFeePpk : Int) : ℚ) / 1000⌉ := by
  have hle := (configure_spec h).fees hfees
  have hceil := Fee.ceilPpk_le_forInputs s.denominations.length k.inputFeePpk
  rw [Fee.ceilPpk_eq_ceil] at hceil
  omega

/-- For a keyset with a key for one, whatever its other amounts are: the parts that are
added for a fee are those of the least fee that pays for itself, if it lies at most
`rounds` above the fee for the inputs; if it lies higher or there is none, the fee
diverges, and in no other case. So a group that is configured with fees has its amount
left when it has been spent. -/
theorem feeParts_least (k : Keyset) (rounds n : Nat) (hone : 1 ∈ k.amounts)
    (hppk : 0 ≤ k.inputFeePpk) :
    (∀ parts, feeParts k rounds n = .ok parts ↔ ∃ fee, LeastFee k.amounts k.inputFeePpk n fee ∧
        fee - Fee.forInputs n k.inputFeePpk ≤ rounds ∧ canonical fee k.amounts = .ok parts) ∧
      (feeParts k rounds n = refuse .feeDiverges ↔ ¬ ∃ fee, LeastFee k.amounts k.inputFeePpk n fee ∧
        fee - Fee.forInputs n k.inputFeePpk ≤ rounds) ∧
      ∀ settings seeded r s, r.includeFees = true → configure settings seeded k r = .ok s →
        r.amount ≤ s.amount - ⌈((s.denominations.length * k.inputFeePpk : Int) : ℚ) / 1000⌉ := by
  have hstart : 0 ≤ Fee.forInputs n k.inputFeePpk := Fee.forInputs_nonneg _ _
  simp only [leastFee_iff hppk]
  unfold feeParts
  obtain ⟨f, hleast, hreach, hrun⟩ | ⟨hnone, hrun⟩ :=
    raiseFee_run k.inputFeePpk n rounds hone hstart
  · obtain ⟨ps, hps⟩ := Amount.canonical_total hone (hstart.trans hleast.1.1)
    refine ⟨fun parts => ⟨fun h => ⟨f, hleast, hreach, hrun ▸ h⟩, ?_⟩, ⟨fun h => ?_, fun h => ?_⟩,
      fun _ _ _ _ => configure_pays⟩
    · rintro ⟨g, hg, -, hparts⟩
      rw [hrun, hleast.unique hg, hparts]
    · rw [hrun, hps] at h
      cases h
    · exact absurd ⟨f, hleast, hreach⟩ h
  · have hnot : ¬ ∃ fee, IsLeast {f | Fee.forInputs n k.inputFeePpk ≤ f ∧
        PaysItself k.amounts k.inputFeePpk n f} fee ∧ fee - Fee.forInputs n k.inputFeePpk ≤ rounds := by
      rintro ⟨f, hf, hreach⟩
      exact hnone f hf.1.1 hreach hf.1.2
    refine ⟨fun parts => ⟨fun h => ?_, ?_⟩, ⟨fun _ => hnot, fun _ => hrun⟩,
      fun _ _ _ _ => configure_pays⟩
    · rw [hrun] at h
      cases h
    · rintro ⟨g, hg, hreach, -⟩
      exact absurd ⟨g, hg, hreach⟩ hnot

/-- A key for one; an input costs half a unit. -/
def halfUnit : Keyset := ⟨.str "00", .str "sat", .bool true, 500, .null, [(1, .str "")]⟩

/-- An input costs one, and so do an input and the part of that fee. Two inputs cost one as
well, but together with its part they cost two: without a round to raise it there is none. -/
theorem feeParts_least_halfUnit :
    (∃ fee, LeastFee halfUnit.amounts 500 1 fee ∧ fee - Fee.forInputs 1 500 ≤ 0 ∧
        canonical fee halfUnit.amounts = .ok [1]) ∧
      ¬ ∃ fee, LeastFee halfUnit.amounts 500 2 fee ∧ fee - Fee.forInputs 2 500 ≤ 0 := by
  have hone : 1 ∈ halfUnit.amounts := by decide +kernel
  have hpays : feeParts halfUnit 0 1 = .ok [1] := by decide +kernel
  have hshort : feeParts halfUnit 0 2 = refuse .feeDiverges := by decide +kernel
  constructor
  · exact ((feeParts_least halfUnit 0 1 hone (by decide)).1 [1]).mp hpays
  · exact (feeParts_least halfUnit 0 2 hone (by decide)).2.1.mp hshort

end Ecash.Plan
