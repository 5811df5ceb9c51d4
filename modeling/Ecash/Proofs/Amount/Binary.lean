import Ecash.Proofs.Amount
import Mathlib.Algebra.Order.Ring.Int
import Mathlib.Tactic.Positivity
import Mathlib.Tactic.Ring

/-!
# Parts in powers of two

Where all denominations are powers of two and none up to the amount is missing, a greedy
split takes the binary digits of the amount one by one, each once (`greedy_lead`). So an
amount below `2 ^ m` has at most `m` parts (`greedy_length`).
-/
namespace Ecash.Amount

variable {ds keys : List Int} {v : Int}

/-- Binary denominations for amounts up to `v`, the largest first. -/
structure Binary (ds : List Int) (v : Int) : Prop where
  descends : ds.Pairwise (· ≥ ·)
  power : ∀ d ∈ ds, ∃ j : Nat, d = 2 ^ j
  complete : ∀ j : Nat, (2 : Int) ^ j ≤ v → 2 ^ j ∈ ds

/-- Without the first denomination, the others are complete for what is less. -/
theorem Binary.tail {d w : Int} (h : Binary (d :: ds) v) (hw : w ≤ v) (hlt : w < d) : Binary ds w := by
  refine ⟨(List.pairwise_cons.mp h.descends).2, fun e he => h.power e (List.mem_cons_of_mem _ he),
    fun j hj => ?_⟩
  rcases List.mem_cons.mp (h.complete j (hj.trans hw)) with heq | hmem
  · omega
  · exact hmem

/-- A denomination goes once into an amount that reaches it, but not twice it. -/
theorem fdiv_of_once {d : Int} (hle : d ≤ v) (hlt : v < d + d) :
    v.fdiv d = 1 ∧ v.fmod d = v - d := by
  have hpos : 0 < d := by omega
  have hquotient : v.fdiv d = 1 := by
    rw [Int.fdiv_eq_ediv_of_nonneg _ hpos.le]
    have hone : 1 ≤ v / d := Int.le_ediv_of_mul_le hpos (by omega)
    have htwo : v / d < 2 := Int.ediv_lt_of_lt_mul hpos (by omega)
    omega
  have hdiv := Int.mul_fdiv_add_fmod v d
  rw [hquotient] at hdiv
  exact ⟨hquotient, by omega⟩

/-- The first part is the leading binary digit. -/
theorem greedy_lead {a : Nat} (hb : Binary ds v) (hle : 2 ^ a ≤ v) (hlt : v < 2 ^ (a + 1)) :
    ∃ ds', Binary ds' (v - 2 ^ a) ∧
      greedy ds v = (2 ^ a :: (greedy ds' (v - 2 ^ a)).1, (greedy ds' (v - 2 ^ a)).2) := by
  induction ds with
  | nil => cases hb.complete a hle
  | cons d ds ih =>
    obtain ⟨j, rfl⟩ := hb.power d List.mem_cons_self
    have hpos : (0 : Int) < 2 ^ j := by positivity
    rw [greedy_cons hpos]
    rcases Nat.lt_or_ge a j with hj | hj
    · -- a larger power does not fit
      have hbeyond : v < 2 ^ j := hlt.trans_le (pow_le_pow_right₀ (by decide) hj)
      have hv : 0 ≤ v := le_trans (by positivity) hle
      rw [Int.fmod_eq_of_lt hv hbeyond, Int.fdiv_eq_ediv_of_nonneg _ hpos.le,
        Int.ediv_eq_zero_of_lt hv hbeyond]
      exact ih (hb.tail le_rfl hbeyond)
    · -- as the list descends, no smaller power can come before the leading one
      have hge : (2 : Int) ^ a ≤ 2 ^ j := by
        rcases List.mem_cons.mp (hb.complete a hle) with heq | hmem
        · exact heq.le
        · exact (List.pairwise_cons.mp hb.descends).1 _ hmem
      obtain rfl : a = j := le_antisymm ((pow_le_pow_iff_right₀ (by decide)).mp hge) hj
      have hdouble : (2 : Int) ^ (a + 1) = 2 ^ a + 2 ^ a := by ring
      obtain ⟨hquotient, hrest⟩ := fdiv_of_once hle (hdouble ▸ hlt)
      rw [hquotient, hrest]
      exact ⟨ds, hb.tail (by omega) (by omega), rfl⟩

/-- Amounts below `2 ^ m` have at most `m` parts. -/
theorem greedy_length {m : Nat} (hb : Binary ds v) (hv : 0 ≤ v) (h : v < 2 ^ m) :
    (greedy ds v).2 = 0 ∧ (greedy ds v).1.length ≤ m := by
  induction m generalizing ds v with
  | zero =>
    obtain rfl : v = 0 := by rw [pow_zero] at h; omega
    rw [greedy_zero]
    exact ⟨rfl, Nat.le_refl _⟩
  | succ m ih =>
    rcases Int.lt_or_le v (2 ^ m) with hlt | hle
    · obtain ⟨hrest, hlength⟩ := ih hb hv hlt
      exact ⟨hrest, by omega⟩
    · obtain ⟨ds', hb', hlead⟩ := greedy_lead hb hle h
      have hdouble : (2 : Int) ^ (m + 1) = 2 ^ m + 2 ^ m := by ring
      obtain ⟨hrest, hlength⟩ := ih hb' (by omega) (by omega)
      rw [hlead]
      exact ⟨hrest, by rw [List.length_cons]; omega⟩

/-- So do those half as far above it. -/
theorem greedy_length_beyond {m : Nat} (hb : Binary ds v) (hv : 0 ≤ v)
    (h : v < 2 ^ (m + 1) + 2 ^ m) : (greedy ds v).2 = 0 ∧ (greedy ds v).1.length ≤ m + 1 := by
  rcases Int.lt_or_le v (2 ^ (m + 1)) with hlt | hle
  · exact greedy_length hb hv hlt
  · have hdouble : (2 : Int) ^ (m + 1 + 1) = 2 ^ (m + 1) + 2 ^ (m + 1) := by ring
    have hhalf : (2 : Int) ^ (m + 1) = 2 ^ m + 2 ^ m := by ring
    have hpos : (0 : Int) < 2 ^ m := by positivity
    obtain ⟨ds', hb', hlead⟩ := greedy_lead hb hle (by omega)
    obtain ⟨hrest, hlength⟩ := greedy_length (m := m) hb' (by omega) (by omega)
    rw [hlead]
    exact ⟨hrest, by rw [List.length_cons]; omega⟩

/-- In powers of two, an amount less than one and a half times `2 ^ n` has at most `n` parts. -/
theorem canonical_length {n : Nat} (hn : 0 < n) (hpower : ∀ a ∈ keys, ∃ j : Nat, a = 2 ^ j)
    (hall : ∀ j : Nat, (2 : Int) ^ j ≤ v → 2 ^ j ∈ keys) (hv : 0 ≤ v)
    (h : v < 2 ^ n + 2 ^ (n - 1)) : ∃ parts, canonical v keys = .ok parts ∧ parts.length ≤ n := by
  obtain ⟨m, rfl⟩ := Nat.exists_eq_add_of_lt hn
  have hb : Binary (descending keys) v := ⟨descending_pairwise keys,
    fun a ha => hpower a (mem_descending.mp ha), fun j hj => mem_descending.mpr (hall j hj)⟩
  rw [Nat.zero_add, Nat.add_sub_cancel] at h
  obtain ⟨hrest, hlength⟩ := greedy_length_beyond hb hv h
  refine ⟨_, canonical_of_greedy hrest, ?_⟩
  have hsame := (sort_perm .ascending (greedy (descending keys) v).1).length_eq
  change (ascending _).length = _ at hsame
  omega

end Ecash.Amount
