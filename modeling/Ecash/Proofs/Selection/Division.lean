import Ecash.Selection.Trial
import Mathlib.Data.List.Nodup

/-!
# Lists divided by position

Things in a list are told apart by their positions, not by what they look like.
`Divided xs keep send` says that every position of `xs` went to exactly one
side, and that the kept things are in their old order.
-/
namespace Ecash.Selection

variable {α : Type} {xs keep send : List α}

theorem arranged_append (xs : List α) (is js : List Nat) :
    arranged xs (is ++ js) = arranged xs is ++ arranged xs js := List.filterMap_append

theorem arranged_range (xs : List α) : arranged xs (List.range xs.length) = xs := by
  unfold arranged
  induction xs with
  | nil => rfl
  | cons x xs ih =>
    rw [List.length_cons, List.range_succ_eq_map, List.filterMap_cons, List.filterMap_map]
    simpa [Function.comp_def] using ih

theorem arranged_cons {x : α} {i : Nat} (h : xs[i]? = some x) (is : List Nat) :
    arranged xs (i :: is) = x :: arranged xs is := by
  simp [arranged, h]

theorem arranged_perm {is js : List Nat} (h : is.Perm js) : (arranged xs is).Perm (arranged xs js) :=
  h.filterMap _

theorem arranged_shuffle (order : Shuffle xs.length) : (arranged xs order.1).Perm xs :=
  (arranged_perm order.2).trans (.of_eq (arranged_range xs))

/-- Things listed with their positions are found there. -/
theorem arranged_of_entries {zs : List (α × Nat)}
    (h : ∀ z ∈ zs, xs[z.2]? = some z.1) : arranged xs (zs.map Prod.snd) = zs.map Prod.fst := by
  induction zs with
  | nil => rfl
  | cons z zs ih =>
    rw [List.forall_mem_cons] at h
    have ih := ih h.2
    unfold arranged at ih ⊢
    rw [List.map_cons, List.map_cons, List.filterMap_cons, h.1, ih]

/-- Distinct things: those outside a subset complete it. -/
theorem append_filter_perm [DecidableEq α] {ys : List α} (hx : xs.Nodup) (hy : ys.Nodup)
    (hs : ys ⊆ xs) : (ys ++ xs.filter (· ∉ ys)).Perm xs := by
  have h : ys.Perm (xs.filter (· ∈ ys)) := by
    refine (List.perm_ext_iff_of_nodup hy (hx.filter _)).mpr fun y => ?_
    simpa using fun h => hs h
  refine (h.append_right _).trans ?_
  simpa using List.filter_append_perm (· ∈ ys) xs

/-- Every position on one side, those of `keep` ascending. -/
def Divided (xs keep send : List α) : Prop :=
  ∃ kept sent : List Nat, kept.Pairwise (· < ·) ∧ (kept ++ sent).Perm (List.range xs.length) ∧
    keep = arranged xs kept ∧ send = arranged xs sent

theorem Divided.perm (h : Divided xs keep send) : (keep ++ send).Perm xs := by
  obtain ⟨kept, sent, -, hp, rfl, rfl⟩ := h
  rw [← arranged_append]
  exact (arranged_perm hp).trans (.of_eq (arranged_range xs))

end Ecash.Selection
