import Ecash.Counter
import Mathlib.Data.List.Pairwise
import Mathlib.Data.List.Perm.Subperm

/-!
# Blocks do not overlap

A source in memory never moves a cursor back, and a block that it grants lies
between the cursor before and the cursor after (`reserve_spec`). So a block is
apart from all that were granted before (`Claimed.append`). The ids of keysets
are told apart as the source does, by `Json.same`.
-/
namespace Ecash

open scoped List

/-! ## Indices -/

/-- An index of the seed: a keyset's id and a counter. -/
abbrev Index := Json × Int

/-- The source takes the two for different indices. -/
def Apart (x y : Index) : Prop := ¬ (x.1.same y.1 ∧ x.2 = y.2)

instance (x y : Index) : Decidable (Apart x y) := inferInstanceAs (Decidable ¬ (_ ∧ _))

theorem Apart.symm {x y : Index} (h : Apart x y) : Apart y x :=
  fun ⟨hs, hc⟩ => h ⟨Json.same_symm hs, hc.symm⟩

/-- `n` consecutive indices of a keyset. -/
def indices (keyset : Json) : (start : Int) → (n : Nat) → List Index
  | _, 0 => []
  | start, n + 1 => (keyset, start) :: indices keyset (start + 1) n

variable {keyset : Json} {start : Int}

theorem indices_add (keyset : Json) (start : Int) (m n : Nat) :
    indices keyset start (m + n) = indices keyset start m ++ indices keyset (start + m) n := by
  induction m generalizing start with
  | zero => simp [indices]
  | succ m ih =>
    have harith : start + 1 + (m : Int) = start + ((m + 1 : Nat) : Int) := by push_cast; omega
    rw [Nat.succ_add, indices, indices, ih, harith, List.cons_append]

theorem mem_indices {n : Nat} {x : Index} (h : x ∈ indices keyset start n) :
    x.1 = keyset ∧ start ≤ x.2 ∧ x.2 < start + n := by
  induction n generalizing start with
  | zero => cases h
  | succ n ih =>
    rcases List.mem_cons.mp h with rfl | h
    · exact ⟨rfl, Int.le_refl _, by push_cast; omega⟩
    · obtain ⟨hk, hle, hlt⟩ := ih h
      exact ⟨hk, by omega, by push_cast; omega⟩

theorem indices_apart (keyset : Json) (start : Int) (n : Nat) :
    (indices keyset start n).Pairwise Apart := by
  induction n generalizing start with
  | zero => exact .nil
  | succ n ih =>
    refine List.pairwise_cons.mpr ⟨fun x hx hsame => ?_, ih _⟩
    have hle := (mem_indices hx).2.1
    have heq : start = x.2 := hsame.2
    omega

/-! ## Cursors -/

namespace Cursors

variable {cs cs' : Cursors} {k k' : Json} {n least v : Int}

@[simp]
theorem next_nil (k : Json) : next [] k = 0 := rfl

theorem next_cons (c : Json × Int) (cs : Cursors) (k : Json) :
    next (c :: cs) k = if c.1.same k then c.2 else cs.next k := by
  unfold next Json.find?
  rw [List.find?_cons]
  cases c.1.same k <;> rfl

/-- Ids that count as one have one cursor. -/
theorem next_congr (cs : Cursors) (h : k.same k') : cs.next k = cs.next k' := by
  induction cs with
  | nil => rfl
  | cons c cs ih =>
    have hiff : c.1.same k = c.1.same k' := by
      rw [Bool.eq_iff_iff]
      exact ⟨fun hc => Json.same_trans hc h, fun hc => Json.same_trans hc (Json.same_symm h)⟩
    rw [next_cons, next_cons, ih, hiff]

theorem next_set (k : Json) (v : Int) (cs : Cursors) (k' : Json) :
    (cs.set k v).next k' = if k.same k' then v else cs.next k' := by
  induction cs with
  | nil => rw [set, next_cons, next_nil]
  | cons c cs ih =>
    obtain ⟨k₀, v₀⟩ := c
    rw [set]
    split
    · rename_i h
      have hiff : k₀.same k' = k.same k' := by
        rw [Bool.eq_iff_iff]
        exact ⟨Json.same_trans (Json.same_symm h), Json.same_trans h⟩
      rw [next_cons, next_cons, hiff]
      split <;> rfl
    · rename_i h
      rw [next_cons, next_cons, ih]
      dsimp only
      split
      · rename_i h₀
        rw [if_neg fun hk => h (Json.same_trans h₀ (Json.same_symm hk))]
      · rfl

/-- A cursor that is set to no less than it was leaves no cursor behind. -/
theorem next_le_next_set (h : cs.next k ≤ v) (k' : Json) : cs.next k' ≤ (cs.set k v).next k' := by
  rw [next_set]
  split
  · rename_i hk
    rwa [← next_congr cs hk]
  · exact Int.le_refl _

theorem next_le_next_advance (k : Json) (least : Int) (cs : Cursors) (k' : Json) :
    cs.next k' ≤ (cs.advance k least).next k' := by
  unfold advance
  split
  · rename_i h
    exact next_le_next_set (Int.le_of_lt h) k'
  · exact Int.le_refl _

theorem next_advance (k : Json) (least : Int) (cs : Cursors) (k' : Json) :
    (cs.advance k least).next k' = if k.same k' then max (cs.next k') least else cs.next k' := by
  have hsame (h : k.same k') : cs.next k' = cs.next k := (next_congr cs h).symm
  unfold advance
  by_cases hlt : cs.next k < least
  · rw [if_pos hlt, next_set]
    split
    · rename_i h
      rw [hsame h, Int.max_eq_right (Int.le_of_lt hlt)]
    · rfl
  · rw [if_neg hlt]
    split
    · rename_i h
      rw [hsame h, Int.max_eq_left (Int.not_lt.mp hlt)]
    · rfl

/-- A reservation moves no cursor back, whether it is granted or not. -/
theorem next_le_next_reserve (k : Json) (n : Int) (cs : Cursors) (k' : Json) :
    cs.next k' ≤ (cs.reserve k n).2.next k' := by
  unfold reserve
  split
  · exact Int.le_refl _
  · dsimp only
    split
    · exact Int.le_refl _
    · exact next_le_next_set (by omega) k'

/-- A block starts at the cursor of its keyset and ends at the cursor after. -/
theorem reserve_spec {b : CounterBlock} (h : (cs.reserve k n).1 = .ok b) :
    b.start = cs.next k ∧ b.start + n.toNat = (cs.reserve k n).2.next k := by
  unfold reserve at h ⊢
  split at h
  · cases h
  · rename_i hn
    cases h
    rw [if_neg hn]
    dsimp only
    refine ⟨rfl, ?_⟩
    rw [Int.toNat_of_nonneg (by omega)]
    split
    · omega
    · rw [next_set, if_pos (Json.same_refl k)]

end Cursors

/-! ## Claims -/

/-- Indices that have been granted are apart from each other, and no cursor will
come to them again. -/
structure Claimed (held : List Index) (cs : Cursors) : Prop where
  apart : held.Pairwise Apart
  below : ∀ x ∈ held, x.2 < cs.next x.1

theorem Claimed.nil (cs : Cursors) : Claimed [] cs := ⟨.nil, by simp⟩

/-- Fresh indices are not below the cursors before, but below those after. -/
structure Fresh (granted : List Index) (cs cs' : Cursors) : Prop where
  forward : ∀ k, cs.next k ≤ cs'.next k
  apart : granted.Pairwise Apart
  between : ∀ x ∈ granted, cs.next x.1 ≤ x.2 ∧ x.2 < cs'.next x.1

theorem Fresh.nil {cs cs' : Cursors} (h : ∀ k, cs.next k ≤ cs'.next k) : Fresh [] cs cs' :=
  ⟨h, .nil, by simp⟩

theorem Claimed.of_subperm {held held' : List Index} {cs : Cursors} (h : Claimed held cs)
    (hsub : held' <+~ held) : Claimed held' cs := by
  refine ⟨?_, fun x hx => h.below x (hsub.subset hx)⟩
  obtain ⟨l, hperm, hl⟩ := hsub
  exact (h.apart.sublist hl).perm hperm Apart.symm

/-- What is fresh is apart from all that is claimed. -/
theorem Claimed.append {held granted : List Index} {cs cs' : Cursors} (h : Claimed held cs)
    (hf : Fresh granted cs cs') : Claimed (held ++ granted) cs' := by
  have hcross : ∀ x ∈ held, ∀ y ∈ granted, Apart x y := by
    rintro x hx y hy ⟨hk, hc⟩
    have hlt := h.below x hx
    have hge := (hf.between y hy).1
    rw [Cursors.next_congr cs hk] at hlt
    omega
  refine ⟨List.pairwise_append.mpr ⟨h.apart, hf.apart, hcross⟩, fun x hx => ?_⟩
  rcases List.mem_append.mp hx with hx | hx
  · exact Int.lt_of_lt_of_le (h.below x hx) (hf.forward x.1)
  · exact (hf.between x hx).2

end Ecash
