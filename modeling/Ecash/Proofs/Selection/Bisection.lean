import Ecash.Proofs.Selection.Totals

/-!
# Searching a list in order by halving it

Where everything before something below is below as well, halving the list finds the place where
what is below ends (`bisect_eq`). So in a list in ascending order of worth the candidate to take
out, and the place to put one in, can be found by halving: `takeAtMost?`, `takeAtLeast?` and
`insert` do what `bisectAtMost?`, `bisectAtLeast?` and `bisectInsert` do.
-/
namespace Ecash.Selection

variable {α : Type} {below : α → Bool} {xs : List α} {lo hi i : Nat}

/-- Halves the positions from `lo` on and before `hi` until none is left. -/
def bisectFrom (below : α → Bool) (xs : List α) (lo hi : Nat) : Nat :=
  if lo < hi then
    let middle := (lo + hi) / 2
    if xs[middle]?.any below then bisectFrom below xs (middle + 1) hi
    else bisectFrom below xs lo middle
  else lo
termination_by hi - lo

/-- The first position at which something is not below. -/
def bisect (below : α → Bool) (xs : List α) : Nat := bisectFrom below xs 0 xs.length

/-- What is below stands in front of what is not. -/
def Graded (below : α → Bool) (xs : List α) : Prop := xs.Pairwise fun a b => below b → below a

theorem Graded.any_iff (h : Graded below xs) :
    xs[i]?.any below = true ↔ i < (xs.takeWhile below).length := by
  induction xs generalizing i with
  | nil => simp
  | cons x xs ih =>
    obtain ⟨hx, h⟩ := List.pairwise_cons.mp h
    cases hb : below x with
    | true =>
      rw [List.takeWhile_cons_of_pos hb, List.length_cons]
      cases i with
      | zero => simp [hb]
      | succ i => rw [List.getElem?_cons_succ, ih h, Nat.add_lt_add_iff_right]
    | false =>
      rw [List.takeWhile_cons_of_neg (by simp [hb])]
      refine iff_of_false ?_ (Nat.not_lt_zero i)
      cases i with
      | zero => simp [hb]
      | succ i =>
        -- what stands behind `x` is no more below than `x` is
        intro hany
        obtain ⟨y, hy, hbelow⟩ := (Option.any_eq_true _ _).mp hany
        rw [List.getElem?_cons_succ] at hy
        rw [hx y (List.mem_of_getElem? hy) hbelow] at hb
        cases hb

theorem Graded.not_below (h : Graded below xs) : ∀ x ∈ xs.dropWhile below, below x = false := by
  induction xs with
  | nil => simp
  | cons x xs ih =>
    obtain ⟨hx, h⟩ := List.pairwise_cons.mp h
    cases hb : below x with
    | true =>
      rw [List.dropWhile_cons_of_pos hb]
      exact ih h
    | false =>
      rw [List.dropWhile_cons_of_neg (by simp [hb])]
      intro y hy
      rcases List.mem_cons.mp hy with rfl | hy
      · exact hb
      · exact Bool.eq_false_iff.mpr fun hbelow => by rw [hx y hy hbelow] at hb; cases hb

theorem bisectFrom_eq (h : Graded below xs) (hlo : lo ≤ (xs.takeWhile below).length)
    (hhi : (xs.takeWhile below).length ≤ hi) :
    bisectFrom below xs lo hi = (xs.takeWhile below).length := by
  fun_induction bisectFrom below xs lo hi with
  | case1 lo hi hlt middle hbelow ih => exact ih (h.any_iff.mp hbelow) hhi
  | case2 lo hi hlt middle hbelow ih => exact ih hlo (not_lt.mp (mt h.any_iff.mpr hbelow))
  | case3 lo hi hlt => omega

/-- Halving finds where what is below ends. -/
theorem bisect_eq (h : Graded below xs) : bisect below xs = (xs.takeWhile below).length :=
  bisectFrom_eq h (Nat.zero_le _) (List.takeWhile_prefix below).length_le

theorem take_bisect (h : Graded below xs) : xs.take (bisect below xs) = xs.takeWhile below := by
  rw [bisect_eq h, ← List.prefix_iff_eq_take.mp (List.takeWhile_prefix below)]

theorem drop_bisect (h : Graded below xs) : xs.drop (bisect below xs) = xs.dropWhile below := by
  have happend := @List.takeWhile_append_dropWhile _ below xs
  calc xs.drop (bisect below xs)
      = (xs.takeWhile below ++ xs.dropWhile below).drop (xs.takeWhile below).length := by
        rw [happend, bisect_eq h]
    _ = xs.dropWhile below := List.drop_left

/-! ## Lists in order of worth -/

variable {r : Request} {c : Candidate} {cs : List Candidate} {limit : Int}

/-- Ascending worth. -/
def Ascending (r : Request) (cs : List Candidate) : Prop :=
  cs.Pairwise fun a b => r.worth a ≤ r.worth b

/-- Takes out the candidate before the first that is worth more than `limit`. -/
def bisectAtMost? (r : Request) (limit : Int) (cs : List Candidate) :
    Option (Candidate × List Candidate) :=
  match bisect (r.worth · ≤ limit) cs with
  | 0 => none
  | i + 1 => cs[i]?.map fun c => (c, cs.eraseIdx i)

/-- Takes out the first candidate that is not worth less than `limit`. -/
def bisectAtLeast? (r : Request) (limit : Int) (cs : List Candidate) :
    Option (Candidate × List Candidate) :=
  let i := bisect (r.worth · < limit) cs
  cs[i]?.map fun c => (c, cs.eraseIdx i)

/-- Puts a candidate in front of the first that is not worth less. -/
def bisectInsert (r : Request) (c : Candidate) (cs : List Candidate) : List Candidate :=
  cs.insertIdx (bisect (r.worth · < r.worth c) cs) c

theorem Ascending.graded_le (h : Ascending r cs) (limit : Int) : Graded (r.worth · ≤ limit) cs := by
  refine h.imp fun hab hb => ?_
  rw [decide_eq_true_eq] at hb ⊢
  omega

theorem Ascending.graded_lt (h : Ascending r cs) (limit : Int) : Graded (r.worth · < limit) cs := by
  refine h.imp fun hab hb => ?_
  rw [decide_eq_true_eq] at hb ⊢
  omega

theorem takeAtMost?_eq_bisect (h : Ascending r cs) (limit : Int) :
    takeAtMost? r limit cs = bisectAtMost? r limit cs := by
  have hle : bisect (r.worth · ≤ limit) cs ≤ cs.length := by
    rw [bisect_eq (h.graded_le limit)]
    exact (List.takeWhile_prefix _).length_le
  unfold takeAtMost? bisectAtMost?
  dsimp only
  rw [← take_bisect (h.graded_le limit), ← drop_bisect (h.graded_le limit)]
  cases hi : bisect (r.worth · ≤ limit) cs with
  | zero => rfl
  | succ i =>
    rw [hi] at hle
    have hlast : cs.take (i + 1) = cs.take i ++ [cs[i]] := (List.take_append_getElem hle).symm
    rw [hlast, List.getLast?_concat, List.dropLast_concat]
    dsimp only
    rw [List.getElem?_eq_getElem hle, List.eraseIdx_eq_take_drop_succ]

theorem takeAtLeast?_eq_bisect (h : Ascending r cs) (limit : Int) :
    takeAtLeast? r limit cs = bisectAtLeast? r limit cs := by
  unfold takeAtLeast? bisectAtLeast?
  dsimp only
  rw [← take_bisect (h.graded_lt limit), ← drop_bisect (h.graded_lt limit)]
  generalize bisect (r.worth · < limit) cs = i
  by_cases hi : i < cs.length
  · rw [List.drop_eq_getElem_cons hi, List.getElem?_eq_getElem hi, List.eraseIdx_eq_take_drop_succ]
    rfl
  · have hle : cs.length ≤ i := not_lt.mp hi
    rw [List.drop_eq_nil_of_le hle, List.getElem?_eq_none hle]
    rfl

theorem insertIdx_takeWhile (p : α → Bool) (x : α) (xs : List α) :
    xs.insertIdx (xs.takeWhile p).length x = xs.takeWhile p ++ x :: xs.dropWhile p := by
  induction xs with
  | nil => rfl
  | cons y ys ih =>
    cases hy : p y with
    | true => rw [List.takeWhile_cons_of_pos hy, List.dropWhile_cons_of_pos hy, List.length_cons,
        List.insertIdx_succ_cons, ih, List.cons_append]
    | false =>
      have hneg : ¬ p y = true := by simp [hy]
      rw [List.takeWhile_cons_of_neg hneg, List.dropWhile_cons_of_neg hneg]
      rfl

theorem insert_eq_bisect (h : Ascending r cs) (c : Candidate) :
    insert r c cs = bisectInsert r c cs := by
  unfold insert bisectInsert
  rw [bisect_eq (h.graded_lt _), insertIdx_takeWhile]

end Ecash.Selection
