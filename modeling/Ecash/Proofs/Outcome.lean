import Ecash.Failure
import Mathlib.Data.List.Forall2

/-!
# Outcomes taken apart

What is known when a chain of outcomes, or one for each item of a list, has
ended well.
-/
namespace Ecash.Outcome

variable {α β γ : Type}

theorem bind_ok_iff {x : Outcome α} {f : α → Outcome β} {b : β} :
    (x >>= f) = .ok b ↔ ∃ a, x = .ok a ∧ f a = .ok b := by
  cases x with
  | ok a => exact ⟨fun h => ⟨a, rfl, h⟩, by rintro ⟨_, ⟨⟩, h⟩; exact h⟩
  | error e => exact ⟨fun h => (by cases h), by rintro ⟨_, h, -⟩; cases h⟩

@[simp]
theorem pure_ok_iff {a b : α} : (pure a : Outcome α) = .ok b ↔ b = a :=
  ⟨fun h => by cases h; rfl, fun h => by rw [h]; rfl⟩

@[simp]
theorem refuse_ne_ok {e : WalletError} {a : α} : (refuse e : Outcome α) ≠ .ok a := by simp [refuse]

theorem toOption_eq_some_iff {x : Outcome α} {a : α} : x.toOption = some a ↔ x = .ok a := by
  cases x <;> simp [Except.toOption]

/-- All ended well, each with the result at its place. -/
theorem mapM_ok_iff {f : α → Outcome β} {xs : List α} {ys : List β} :
    xs.mapM f = .ok ys ↔ List.Forall₂ (fun x y => f x = .ok y) xs ys := by
  induction xs generalizing ys with
  | nil => rw [List.mapM_nil, pure_ok_iff, List.forall₂_nil_left_iff]
  | cons x xs ih =>
    simp only [List.mapM_cons, bind_ok_iff, pure_ok_iff, ih]
    constructor
    · rintro ⟨y, hy, ys, hys, rfl⟩
      exact .cons hy hys
    · intro h
      cases h with
      | cons hy hys => exact ⟨_, hy, _, hys, rfl⟩

/-- What a result takes over from its item, all results take over from all items. -/
theorem map_of_mapM_ok {f : α → Outcome β} {xs : List α} {ys : List β} {g : β → γ} {h : α → γ}
    (hf : ∀ x y, f x = .ok y → g y = h x) (hm : xs.mapM f = .ok ys) : ys.map g = xs.map h := by
  induction mapM_ok_iff.mp hm with
  | nil => rfl
  | cons hxy hrest ih =>
    rw [List.map_cons, List.map_cons, hf _ _ hxy, ih (mapM_ok_iff.mpr hrest)]

/-- What stands on the right of a relation between lists has something to its left. -/
theorem mem_of_forall₂ {R : α → β → Prop} {xs : List α} {ys : List β} {y : β}
    (h : List.Forall₂ R xs ys) (hy : y ∈ ys) : ∃ x ∈ xs, R x y := by
  induction h with
  | nil => cases hy
  | cons hxy _ ih =>
    rcases List.mem_cons.mp hy with rfl | hy
    · exact ⟨_, List.mem_cons_self, hxy⟩
    · obtain ⟨x, hx, h⟩ := ih hy
      exact ⟨x, List.mem_cons_of_mem _ hx, h⟩

theorem mem_of_mapM_ok {f : α → Outcome β} {xs : List α} {ys : List β} {y : β} (hy : y ∈ ys)
    (hm : xs.mapM f = .ok ys) : ∃ x ∈ xs, f x = .ok y :=
  mem_of_forall₂ (R := fun x y => f x = .ok y) (mapM_ok_iff.mp hm) hy

theorem exists_of_mapM_ok {f : α → Outcome β} {xs : List α} {ys : List β} {x : α} (hx : x ∈ xs)
    (hm : xs.mapM f = .ok ys) : ∃ y ∈ ys, f x = .ok y := by
  have hflip := List.Forall₂.flip (R := fun y x => f x = .ok y) (mapM_ok_iff.mp hm)
  exact mem_of_forall₂ hflip hx

theorem mapM_total {f : α → Outcome β} {xs : List α} (h : ∀ x ∈ xs, ∃ y, f x = .ok y) :
    ∃ ys, xs.mapM f = .ok ys := by
  induction xs with
  | nil => exact ⟨[], rfl⟩
  | cons x xs ih =>
    obtain ⟨⟨y, hy⟩, h⟩ := List.forall_mem_cons.mp h
    obtain ⟨ys, hys⟩ := ih h
    exact ⟨y :: ys, by rw [List.mapM_cons, hy, hys]; rfl⟩

/-- Results that a lookup finds for every item. -/
theorem mapM_of_lookup {f : α → Outcome β} {l : α → Option β} {xs : List α}
    (h : ∀ x ∈ xs, ∃ y, f x = .ok y ∧ l x = some y) : xs.mapM f = .ok (xs.filterMap l) := by
  induction xs with
  | nil => rfl
  | cons x xs ih =>
    obtain ⟨⟨y, hf, hl⟩, h⟩ := List.forall_mem_cons.mp h
    rw [List.mapM_cons, List.filterMap_cons, hf, ih h, hl]
    rfl

theorem mapM_append_ok_iff {f : α → Outcome β} {xs xs' : List α} {ys : List β} :
    (xs ++ xs').mapM f = .ok ys ↔ xs.mapM f = .ok (ys.take xs.length) ∧
      xs'.mapM f = .ok (ys.drop xs.length) := by
  rw [List.mapM_append]
  simp only [bind_ok_iff, pure_ok_iff]
  constructor
  · rintro ⟨as, ha, bs, hb, rfl⟩
    have hl := (mapM_ok_iff.mp ha).length_eq
    rw [hl, List.take_left, List.drop_left]
    exact ⟨ha, hb⟩
  · rintro ⟨ha, hb⟩
    exact ⟨_, ha, _, hb, (List.take_append_drop _ _).symm⟩

end Ecash.Outcome
