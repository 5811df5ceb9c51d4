import Ecash.Proofs.Fee
import Ecash.Selection.Candidate
import Mathlib.Data.List.Sort
import Mathlib.Data.List.TakeWhile

/-!
# Totals of a selection

Totals are sums, so they do not depend on an order. `le_net_iff` ties the net
amount of a whole selection, which is rounded, to the worths of its candidates,
which are kept in thousandths and add up. So a candidate within the gap does not
pass the target, one beyond the gap reaches it, and one that is worth something
never costs when it joins.
-/
namespace Ecash.Selection

namespace Totals

theorem foldl_plus (cs : List Candidate) (t : Totals) :
    cs.foldl plus t =
      ⟨t.amount + (cs.map Candidate.amount).sum, t.feePpk + (cs.map Candidate.feePpk).sum⟩ := by
  induction cs generalizing t with
  | nil => simp
  | cons c cs ih =>
    rw [List.foldl_cons, ih]
    simp only [plus, List.map_cons, List.sum_cons, Int.add_assoc]

theorem of_eq_sums (cs : List Candidate) :
    of cs = ⟨(cs.map Candidate.amount).sum, (cs.map Candidate.feePpk).sum⟩ := by
  unfold of
  rw [foldl_plus]
  simp [zero]

@[simp]
theorem of_nil : of [] = zero := rfl

theorem of_cons (c : Candidate) (cs : List Candidate) : of (c :: cs) = (of cs).plus c := by
  simp only [of_eq_sums, plus, List.map_cons, List.sum_cons, mk.injEq]
  omega

theorem of_perm {as bs : List Candidate} (h : as.Perm bs) : of as = of bs := by
  rw [of_eq_sums, of_eq_sums, (h.map _).sum_eq, (h.map Candidate.feePpk).sum_eq]

theorem minus_of_cons (c : Candidate) (cs : List Candidate) : (of (c :: cs)).minus c = of cs := by
  simp only [of_cons, plus, minus, Int.add_sub_cancel]

end Totals

namespace Request

variable {r : Request} {t : Totals} {c : Candidate}

@[simp]
theorem net_zero (r : Request) : r.net .zero = 0 := by simp [net, Totals.zero]

/-- What a collection with these totals is worth in thousandths. -/
def weight (r : Request) (t : Totals) : Int :=
  t.amount * 1000 - if r.includeFees then t.feePpk else 0

@[simp]
theorem weight_zero (r : Request) : r.weight .zero = 0 := by simp [weight, Totals.zero]

@[simp]
theorem weight_plus (r : Request) (t : Totals) (c : Candidate) :
    r.weight (t.plus c) = r.weight t + r.worth c := by
  unfold weight worth Totals.plus
  split <;> ring

@[simp]
theorem weight_minus (r : Request) (t : Totals) (c : Candidate) :
    r.weight (t.minus c) = r.weight t - r.worth c := by
  unfold weight worth Totals.minus
  split <;> ring

theorem weight_of (r : Request) (cs : List Candidate) :
    r.weight (.of cs) = (cs.map r.worth).sum := by
  induction cs with
  | nil => simp
  | cons c cs ih => rw [Totals.of_cons, weight_plus, ih, List.map_cons, List.sum_cons, Int.add_comm]

/-- Rounding up the fee of a collection rounds down what it is worth. -/
theorem le_net_iff {n : Int} : n ≤ r.net t ↔ n * 1000 ≤ r.weight t := by
  unfold net weight
  split
  · have h : Fee.ceilPpk t.feePpk ≤ t.amount - n ↔ _ := Fee.ceilPpk_le_iff
    omega
  · omega

/-- A candidate within the gap to the target does not lead past it. -/
theorem net_plus_le (h : r.worth c ≤ (r.target - r.net t) * 1000) : r.net (t.plus c) ≤ r.target := by
  have h₁ := le_net_iff (r := r) (t := t) (n := r.net t + 1)
  have h₂ := le_net_iff (r := r) (t := t.plus c) (n := r.target + 1)
  rw [weight_plus] at h₂
  omega

/-- A candidate beyond the gap to the target leads there. -/
theorem le_net_plus (h : (r.target - r.net t) * 1000 ≤ r.worth c) : r.target ≤ r.net (t.plus c) := by
  have h₁ := le_net_iff.mp (le_refl (r.net t))
  rw [le_net_iff, weight_plus]
  omega

/-- Leaving out a candidate that is worth something gains nothing. -/
theorem net_minus_le (hw : 0 ≤ r.worth c) : r.net (t.minus c) ≤ r.net t := by
  have h := le_net_iff.mp (le_refl (r.net (t.minus c)))
  rw [weight_minus] at h
  exact le_net_iff.mpr (by omega)

/-- A collection has an excess when it reaches the target. -/
theorem excess?_eq_some {e : Int} : r.excess? t = some e ↔
    r.target ≤ r.net t ∧ e = (t.amount - r.target) * 1000 + t.feePpk := by
  unfold excess?
  split
  · simp; omega
  · simp only [Option.some.injEq]; omega

theorem excess?_eq_none : r.excess? t = none ↔ r.net t < r.target := by
  unfold excess?
  split
  · simp; omega
  · simp; omega

end Request

/-! ## Lists in order of worth -/

variable {r : Request} {cs rest : List Candidate} {c : Candidate} {limit : Int}

theorem ascending_perm (r : Request) (cs : List Candidate) : (ascending r cs).Perm cs :=
  List.mergeSort_perm _ _

theorem descending_perm (r : Request) (cs : List Candidate) : (descending r cs).Perm cs :=
  List.mergeSort_perm _ _

theorem ascending_pairwise (r : Request) (cs : List Candidate) :
    (ascending r cs).Pairwise fun a b => r.worth a ≤ r.worth b :=
  List.pairwise_mergeSort' (Order.Preimage r.worth (· ≤ ·)) cs

theorem descending_reverse_perm (r : Request) (cs : List Candidate) :
    (descending r cs).reverse.Perm cs :=
  (List.reverse_perm _).trans (descending_perm r cs)

/-- The most worth comes first, so backwards the least does. -/
theorem descending_reverse_pairwise (r : Request) (cs : List Candidate) :
    (descending r cs).reverse.Pairwise fun a b => r.worth a ≤ r.worth b := by
  rw [List.pairwise_reverse]
  exact List.pairwise_mergeSort' (Order.Preimage r.worth (· ≥ ·)) cs

theorem insert_perm (r : Request) (c : Candidate) (cs : List Candidate) :
    (insert r c cs).Perm (c :: cs) := by
  unfold insert
  refine List.perm_middle.trans ?_
  rw [List.takeWhile_append_dropWhile]

theorem takeAtMost?_perm (h : takeAtMost? r limit cs = some (c, rest)) : (c :: rest).Perm cs := by
  simp only [takeAtMost?, Option.map_eq_some_iff, Prod.mk.injEq] at h
  obtain ⟨_, hc, rfl, rfl⟩ := h
  have hl := List.dropLast_append_getLast? _ hc
  calc (_ : List Candidate).Perm _ := List.perm_middle.symm
    _ = cs := by rw [List.append_cons, hl, List.takeWhile_append_dropWhile]

theorem takeAtMost?_worth (h : takeAtMost? r limit cs = some (c, rest)) : r.worth c ≤ limit := by
  simp only [takeAtMost?, Option.map_eq_some_iff, Prod.mk.injEq] at h
  obtain ⟨_, hc, rfl, -⟩ := h
  simpa using List.mem_takeWhile_imp (List.mem_of_getLast? hc)

theorem takeAtLeast?_perm (h : takeAtLeast? r limit cs = some (c, rest)) : (c :: rest).Perm cs := by
  simp only [takeAtLeast?] at h
  split at h
  · cases h
  · rename_i high hd
    cases h
    calc (_ : List Candidate).Perm _ := List.perm_middle.symm
      _ = cs := by rw [← hd, List.takeWhile_append_dropWhile]

theorem takeAtLeast?_worth (h : takeAtLeast? r limit cs = some (c, rest)) : limit ≤ r.worth c := by
  simp only [takeAtLeast?] at h
  split at h
  · cases h
  · rename_i high hd
    cases h
    have hc := List.head?_dropWhile_not (r.worth · < limit) cs
    rw [hd] at hc
    simpa using hc

end Ecash.Selection
