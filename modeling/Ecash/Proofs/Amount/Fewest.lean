import Ecash.Proofs.Amount
import Mathlib.Algebra.BigOperators.Ring.List
import Mathlib.Algebra.BigOperators.Group.Multiset.Basic
import Mathlib.Algebra.Order.BigOperators.Group.Multiset
import Mathlib.Algebra.Order.Ring.Int
import Mathlib.Order.Bounds.Basic

/-!
# Splits with the fewest parts

A split is refused when the pinned parts ask for too much or for what the keyset has not, and
when dividing by one denomination after the other leaves something over (`split_eq`).

Where every denomination divides the next larger one, an amount has at most one part more
when one denomination is added to it (`Nested.partCount_add_le`). So coins that come to
the amount are never fewer than its greedy parts (`Nested.partCount_le_card`).
-/
namespace Ecash.Amount

variable {value v : Int} {keys ds pins parts : List Int} {order : Order}

/-! ## What is left over -/

/-- The positive amounts, the largest first. -/
def positives (keys : List Int) : List Int := (descending keys).filter (0 < ·)

/-- What is left when a value is divided by one positive amount after the other, the
largest first. -/
def leftOver (keys : List Int) (value : Int) : Int := (positives keys).foldl (· % ·) value

theorem mem_positives {a : Int} : a ∈ positives keys ↔ a ∈ keys ∧ 0 < a := by
  unfold positives
  rw [List.mem_filter, mem_descending, decide_eq_true_eq]

/-- Only positive denominations count. -/
theorem greedy_filter (ds : List Int) (v : Int) : greedy (ds.filter (0 < ·)) v = greedy ds v := by
  induction ds generalizing v with
  | nil => rfl
  | cons d ds ih =>
    rcases Int.lt_or_le 0 d with hd | hd
    · rw [List.filter_cons_of_pos (by simpa using hd), greedy_cons hd, greedy_cons hd, ih]
    · rw [List.filter_cons_of_neg (by simpa using hd), greedy_skip hd, ih]

theorem greedy_snd (hpos : ∀ d ∈ ds, 0 < d) (v : Int) : (greedy ds v).2 = ds.foldl (· % ·) v := by
  induction ds generalizing v with
  | nil => rfl
  | cons d ds ih =>
    obtain ⟨hd, hpos⟩ := List.forall_mem_cons.mp hpos
    rw [greedy_cons hd, List.foldl_cons, Int.fmod_eq_emod_of_nonneg _ hd.le]
    exact ih hpos _

theorem greedy_leftOver (keys : List Int) (v : Int) :
    (greedy (descending keys) v).2 = leftOver keys v := by
  rw [← greedy_filter]
  exact greedy_snd (fun d hd => (mem_positives.mp hd).2) v

theorem mem_greedy {a : Int} (h : a ∈ (greedy ds v).1) : a ∈ ds ∧ 0 < a := by
  fun_induction greedy ds v with
  | case1 v => cases h
  | case2 d ds v hd ih => exact (ih h).imp_left (List.mem_cons_of_mem d)
  | case3 d ds v hd parts rest hg ih =>
    rw [hg] at ih
    rcases List.mem_append.mp h with h | h
    · obtain rfl := List.eq_of_mem_replicate h
      exact ⟨List.mem_cons_self, by omega⟩
    · exact (ih h).imp_left (List.mem_cons_of_mem d)

/-- A common divisor of the denominations divides what is left exactly when it divides the
value. -/
theorem dvd_greedy_rest {g : Int} (hdvd : ∀ d ∈ ds, 0 < d → g ∣ d) (hv : 0 ≤ v) :
    g ∣ (greedy ds v).2 ↔ g ∣ v := by
  have hparts : g ∣ (greedy ds v).1.sum := List.dvd_sum fun a ha =>
    hdvd a (mem_greedy ha).1 (mem_greedy ha).2
  rw [← Int.dvd_add_right hparts, greedy_sum ds hv]

/-- With a least denomination that divides all others, nothing is left of its multiples
and of nothing else. -/
theorem greedy_rest_eq_zero_iff {g : Int} (hg : g ∈ ds) (hpos : 0 < g)
    (hdvd : ∀ d ∈ ds, 0 < d → g ∣ d) (hv : 0 ≤ v) : (greedy ds v).2 = 0 ↔ g ∣ v := by
  obtain ⟨hnonneg, -, hlt⟩ := greedy_rest ds hv
  rw [← dvd_greedy_rest hdvd hv]
  constructor
  · intro hrest
    rw [hrest]
    exact Int.dvd_zero g
  · exact Int.eq_zero_of_dvd_of_nonneg_of_lt hnonneg (hlt g hg hpos)

/-! ## When a split is refused -/

theorem pinned_eq (hv : 0 ≤ value) (keys pins : List Int) : pinned value keys pins =
    if value < pins.sum then refuse (.splitExceedsTotal pins.sum value)
    else if pins.filter (fun a => a ≠ 0 ∧ a ∉ keys) ≠ [] then
      refuse (.splitNotInKeyset (pins.filter fun a => a ≠ 0 ∧ a ∉ keys))
    else .ok () := by
  cases pins with
  | nil =>
    have hsum : ¬ value < [].sum := by simpa using hv
    rw [if_neg hsum]
    rfl
  | cons a rest =>
    unfold pinned
    dsimp only [List.isEmpty_cons]
    split
    · contradiction
    · split
      · rfl
      · split <;> simp_all

/-- All that a split can end in. -/
theorem split_eq (hv : 0 ≤ value) (pins : List Int) (order : Order) :
    split value keys pins order =
      if value < pins.sum then refuse (.splitExceedsTotal pins.sum value)
      else if pins.filter (fun a => a ≠ 0 ∧ a ∉ keys) ≠ [] then
        refuse (.splitNotInKeyset (pins.filter fun a => a ≠ 0 ∧ a ∉ keys))
      else if leftOver keys (value - pins.sum) ≠ 0 then
        refuse (.notDivisible (leftOver keys (value - pins.sum)))
      else .ok (order.sort (pins ++ (greedy (descending keys) (value - pins.sum)).1)) := by
  rw [split, pinned_eq hv]
  split_ifs with hsum hpins hrest
  · rfl
  · rfl
  · rw [← greedy_leftOver] at hrest ⊢
    exact if_pos hrest
  · rw [← greedy_leftOver] at hrest
    exact if_neg hrest

/-- A refusal of what was asked for. -/
def Unsplittable (value : Int) (keys pins : List Int) (order : Order) : Prop :=
  ∃ e, split value keys pins order = refuse e ∧ e.kind = .configuration

theorem unsplittable_iff (hv : 0 ≤ value) : Unsplittable value keys pins order ↔
    value < pins.sum ∨ (∃ a ∈ pins, a ≠ 0 ∧ a ∉ keys) ∨ leftOver keys (value - pins.sum) ≠ 0 := by
  have hbad : (∃ a ∈ pins, a ≠ 0 ∧ a ∉ keys) ↔ pins.filter (fun a => a ≠ 0 ∧ a ∉ keys) ≠ [] := by
    simp [List.filter_eq_nil_iff]
  unfold Unsplittable
  rw [split_eq hv, hbad]
  split_ifs with hsum hpins hrest
  · exact iff_of_true ⟨_, rfl, rfl⟩ (.inl hsum)
  · exact iff_of_true ⟨_, rfl, rfl⟩ (.inr (.inl hpins))
  · exact iff_of_true ⟨_, rfl, rfl⟩ (.inr (.inr hrest))
  · refine iff_of_false ?_ (by simp only [hsum, hpins, hrest, or_self, not_false_eq_true])
    rintro ⟨e, he, -⟩
    exact absurd he.symm Outcome.refuse_ne_ok

/-! ## The fewest parts -/

/-- Positive denominations, each a divisor of all those before it. -/
structure Nested (ds : List Int) : Prop where
  pos : ∀ d ∈ ds, 0 < d
  dvd : ds.Pairwise fun d e => e ∣ d

theorem Nested.tail {d : Int} (h : Nested (d :: ds)) : Nested ds :=
  ⟨fun e he => h.pos e (List.mem_cons_of_mem d he), (List.pairwise_cons.mp h.dvd).2⟩

/-- Of two denominations the smaller divides the larger one. -/
theorem Nested.dvd_of_le (h : Nested ds) {d e : Int} (hd : d ∈ ds) (he : e ∈ ds) (hle : e ≤ d) :
    e ∣ d := by
  by_cases hne : d = e
  · exact hne ▸ Int.dvd_refl d
  have hsymm : Std.Symm fun d e : Int => e ∣ d ∨ d ∣ e := ⟨fun _ _ => Or.symm⟩
  have heither : ds.Pairwise fun d e => e ∣ d ∨ d ∣ e := h.dvd.imp Or.inl
  rcases heither.forall hd he hne with hdvd | hdvd
  · exact hdvd
  · have hge : d ≤ e := Int.le_of_dvd (h.pos e he) hdvd
    omega

/-- The number of parts of a value. -/
def partCount (ds : List Int) (v : Int) : Nat := (greedy ds v).1.length

theorem partCount_cons {d : Int} (hd : 0 < d) (ds : List Int) (v : Int) :
    partCount (d :: ds) v = (v / d).toNat + partCount ds (v % d) := by
  unfold partCount
  rw [greedy_cons hd, List.length_append, List.length_replicate,
    Int.fdiv_eq_ediv_of_nonneg _ hd.le, Int.fmod_eq_emod_of_nonneg _ hd.le]

theorem partCount_cons_of_lt {d : Int} (ds : List Int) (hv : 0 ≤ v) (hlt : v < d) :
    partCount (d :: ds) v = partCount ds v := by
  rw [partCount_cons (by omega), Int.ediv_eq_zero_of_lt hv hlt, Int.emod_eq_of_lt hv hlt]
  simp

/-- What is left when a value is divided by a denomination has no more parts than the value. -/
theorem Nested.partCount_mod_le (h : Nested ds) {a : Int} (ha : a ∈ ds) (hv : 0 ≤ v) :
    partCount ds (v % a) ≤ partCount ds v := by
  induction ds generalizing v with
  | nil => cases ha
  | cons d ds ih =>
    have hd : 0 < d := h.pos d List.mem_cons_self
    rcases List.mem_cons.mp ha with rfl | ha
    · rw [partCount_cons_of_lt ds (Int.emod_nonneg v hd.ne') (Int.emod_lt_of_pos v hd),
        partCount_cons hd]
      exact Nat.le_add_left _ _
    · have hpos : 0 < a := h.tail.pos a ha
      have hdvd : a ∣ d := (List.pairwise_cons.mp h.dvd).1 a ha
      have hlt : v % a < d := (Int.emod_lt_of_pos v hpos).trans_le (Int.le_of_dvd hd hdvd)
      rw [partCount_cons_of_lt ds (Int.emod_nonneg v hpos.ne') hlt, partCount_cons hd]
      calc partCount ds (v % a) = partCount ds (v % d % a) := by rw [Int.emod_emod_of_dvd v hdvd]
        _ ≤ partCount ds (v % d) := ih h.tail ha (Int.emod_nonneg v hd.ne')
        _ ≤ _ := Nat.le_add_left _ _

/-- What is left of a number below `d`, divided by a divisor of `d`, when it comes to within
the divisor of `d`. -/
theorem emod_of_lt_add {r a d : Int} (ha : 0 < a) (hdvd : a ∣ d) (hlt : r < d) (hge : d ≤ r + a) :
    r % a = r + a - d := by
  obtain ⟨c, rfl⟩ := hdvd
  have hpred : a * (c - 1) = a * c - a := by rw [Int.mul_sub, Int.mul_one]
  have hunique : r / a = c - 1 ∧ r % a = r + a - a * c :=
    (Int.ediv_emod_unique ha).mpr ⟨by omega, by omega, by omega⟩
  exact hunique.2

/-- One denomination more makes at most one part more. -/
theorem Nested.partCount_add_le (h : Nested ds) {a : Int} (ha : a ∈ ds) (hv : 0 ≤ v) :
    partCount ds (v + a) ≤ partCount ds v + 1 := by
  induction ds generalizing v with
  | nil => cases ha
  | cons d ds ih =>
    have hd : 0 < d := h.pos d List.mem_cons_self
    have hq : 0 ≤ v / d := Int.ediv_nonneg hv hd.le
    have hr : 0 ≤ v % d := Int.emod_nonneg v hd.ne'
    have hsplit : d * (v / d) + v % d = v := Int.mul_ediv_add_emod v d
    rw [partCount_cons hd, partCount_cons hd]
    rcases List.mem_cons.mp ha with rfl | ha
    · rw [Int.add_ediv_of_dvd_right (dvd_refl a), Int.ediv_self hd.ne', Int.add_emod_right]
      omega
    have hpos : 0 < a := h.tail.pos a ha
    have hdvd : a ∣ d := (List.pairwise_cons.mp h.dvd).1 a ha
    have hle : a ≤ d := Int.le_of_dvd hd hdvd
    rcases Int.lt_or_le (v % d + a) d with hlt | hge
    · -- the first denomination does not notice
      obtain ⟨hquot, hmod⟩ : (v + a) / d = v / d ∧ (v + a) % d = v % d + a :=
        (Int.ediv_emod_unique hd).mpr ⟨by omega, by omega, hlt⟩
      have hmore := ih h.tail ha hr
      rw [hquot, hmod]
      omega
    · -- one more of the first; beside it there is what is left of the others without `a`
      have hpred : d * (v / d + 1) = d * (v / d) + d := by rw [Int.mul_add, Int.mul_one]
      obtain ⟨hquot, hmod⟩ : (v + a) / d = v / d + 1 ∧ (v + a) % d = v % d + a - d :=
        (Int.ediv_emod_unique hd).mpr ⟨by omega, by omega, by have := Int.emod_lt_of_pos v hd; omega⟩
      have hrest : v % d % a = v % d + a - d :=
        emod_of_lt_add hpos hdvd (Int.emod_lt_of_pos v hd) hge
      have hless := h.tail.partCount_mod_le ha hr
      rw [hquot, hmod, ← hrest]
      omega

/-- No coins that come to a value are fewer than its parts. -/
theorem Nested.partCount_le_card (h : Nested ds) (coins : Multiset Int) (hcoins : ∀ a ∈ coins, a ∈ ds) :
    partCount ds coins.sum ≤ coins.card := by
  induction coins using Multiset.induction_on with
  | empty => simp [partCount, greedy_zero]
  | cons a coins ih =>
    obtain ⟨ha, hcoins⟩ := Multiset.forall_mem_cons.mp hcoins
    have hsum : 0 ≤ coins.sum := Multiset.sum_nonneg fun b hb => (h.pos b (hcoins b hb)).le
    rw [Multiset.sum_cons, Multiset.card_cons, Int.add_comm]
    exact (h.partCount_add_le ha hsum).trans (Nat.succ_le_succ (ih hcoins))

/-! ## Splits -/

/-- Sorted as asked for. -/
def Order.Sorted : Order → List Int → Prop
  | .ascending, parts => parts.Pairwise (· ≤ ·)
  | .descending, parts => parts.Pairwise (· ≥ ·)

instance : (order : Order) → (parts : List Int) → Decidable (order.Sorted parts)
  | .ascending, parts => inferInstanceAs (Decidable (parts.Pairwise _))
  | .descending, parts => inferInstanceAs (Decidable (parts.Pairwise _))

theorem sorted_sort (order : Order) (amounts : List Int) : order.Sorted (order.sort amounts) := by
  cases order with
  | ascending => exact ascending_pairwise amounts
  | descending => exact descending_pairwise amounts

/-- There is one way to sort amounts. -/
theorem Order.sort_eq (order : Order) {amounts sorted : List Int} (hperm : amounts.Perm sorted)
    (hsorted : order.Sorted sorted) : order.sort amounts = sorted := by
  have hboth : (order.sort amounts).Perm sorted := (sort_perm order amounts).trans hperm
  cases order with
  | ascending =>
    exact hboth.eq_of_pairwise (fun _ _ _ _ => Int.le_antisymm) (ascending_pairwise amounts) hsorted
  | descending =>
    exact hboth.eq_of_pairwise (fun _ _ _ _ hge hle => Int.le_antisymm hle hge)
      (descending_pairwise amounts) hsorted

/-- Parts of a value: the pinned ones, and positive denominations. -/
structure SplitInto (value : Int) (keys pins : List Int) (order : Order) (parts : List Int) : Prop where
  sum : parts.sum = value
  sorted : order.Sorted parts
  pinned : ∃ others, parts.Perm (pins ++ others) ∧ ∀ a ∈ others, a ∈ keys ∧ 0 < a

theorem split_into (hv : 0 ≤ value) (h : split value keys pins order = .ok parts) :
    SplitInto value keys pins order parts := by
  have heq : split value keys pins order = _ := split_eq hv pins order
  rw [h] at heq
  split_ifs at heq with hsum hpins hrest
  · exact absurd heq.symm Outcome.refuse_ne_ok
  · exact absurd heq.symm Outcome.refuse_ne_ok
  · exact absurd heq.symm Outcome.refuse_ne_ok
  · have hvalue := split_sum (Int.not_lt.mp hsum) h
    cases heq
    refine ⟨hvalue, sorted_sort order _, _, sort_perm order _, fun a ha => ?_⟩
    obtain ⟨hmem, hpos⟩ := mem_greedy ha
    exact ⟨mem_descending.mp hmem, hpos⟩

/-- Parts that nobody has pinned are positive denominations. -/
theorem mem_canonical {a : Int} (hv : 0 ≤ value) (h : canonical value keys = .ok parts)
    (ha : a ∈ parts) : a ∈ keys ∧ 0 < a := by
  obtain ⟨others, hperm, hothers⟩ := (split_into hv h).pinned
  exact hothers a (hperm.mem_iff.mp ha)

/-- What is not refused is split. -/
theorem split_total (hv : 0 ≤ value) :
    Unsplittable value keys pins order ∨ ∃ parts, split value keys pins order = .ok parts := by
  unfold Unsplittable
  rw [split_eq hv]
  split_ifs
  · exact .inl ⟨_, rfl, rfl⟩
  · exact .inl ⟨_, rfl, rfl⟩
  · exact .inl ⟨_, rfl, rfl⟩
  · exact .inr ⟨_, rfl⟩

/-- Without pinned parts only what is left over stands in the way. -/
theorem split_plain (hv : 0 ≤ value) (keys : List Int) (order : Order) : split value keys [] order =
    if leftOver keys value ≠ 0 then refuse (.notDivisible (leftOver keys value))
    else .ok (order.sort (greedy (descending keys) value).1) := by
  have hsum : ¬ value < [].sum := by simpa using hv
  rw [split_eq hv, if_neg hsum]
  simp

/-- With a least denomination that divides all others, its multiples are split and nothing
else is. -/
theorem split_plain_iff {g : Int} (hg : g ∈ keys) (hpos : 0 < g) (hdvd : ∀ d ∈ keys, 0 < d → g ∣ d)
    (hv : 0 ≤ value) (order : Order) : (∃ parts, split value keys [] order = .ok parts) ↔ g ∣ value := by
  have hrest : leftOver keys value = 0 ↔ g ∣ value := by
    rw [← greedy_leftOver]
    exact greedy_rest_eq_zero_iff (mem_descending.mpr hg) hpos (fun d hd => hdvd d (mem_descending.mp hd)) hv
  rw [split_plain hv, ← hrest]
  split_ifs with h
  · exact iff_of_false (fun ⟨_, hparts⟩ => Outcome.refuse_ne_ok hparts) h
  · exact iff_of_true ⟨_, rfl⟩ (not_not.mp h)

theorem nested_positives (h : (positives keys).IsChain fun d e => e ∣ d) : Nested (positives keys) := by
  refine ⟨fun d hd => (mem_positives.mp hd).2, ?_⟩
  have : IsTrans Int fun d e => e ∣ d := ⟨fun _ _ _ hde hef => hef.trans hde⟩
  exact List.isChain_iff_pairwise.mp h

/-- For every amount that is not negative, all keys, all pinned parts and either order: the
parts of a split add up to the amount and are sorted, and beside the pinned ones there are only
positive denominations. It is refused, as a request that cannot be met, exactly when the pinned
parts come to more than the amount, one of them is neither zero nor a denomination, or
dividing by the denominations leaves something over. Where each positive denomination divides the
next larger one, an amount is split without pinned parts exactly when the least one
divides it, and no other coins of the keyset that come to it are fewer. -/
theorem split_fewest (hv : 0 ≤ value) (keys pins : List Int) (order : Order) :
    (∀ parts, split value keys pins order = .ok parts → SplitInto value keys pins order parts) ∧
      (Unsplittable value keys pins order ∨ ∃ parts, split value keys pins order = .ok parts) ∧
      (Unsplittable value keys pins order ↔ value < pins.sum ∨ (∃ a ∈ pins, a ≠ 0 ∧ a ∉ keys) ∨
        leftOver keys (value - pins.sum) ≠ 0) ∧
      ∀ least, IsLeast {a | a ∈ keys ∧ 0 < a} least →
        ((positives keys).IsChain fun d e => e ∣ d) →
          ((∃ parts, split value keys [] order = .ok parts) ↔ least ∣ value) ∧
            ∀ parts, split value keys [] order = .ok parts → ∀ coins : Multiset Int,
              (∀ a ∈ coins, a ∈ keys ∧ 0 < a) → coins.sum = value → parts.length ≤ coins.card := by
  refine ⟨fun parts h => split_into hv h, split_total hv, unsplittable_iff hv,
    fun least hleast hchain => ?_⟩
  have hnested := nested_positives hchain
  have hmem : least ∈ positives keys := mem_positives.mpr hleast.1
  have hdvd (d : Int) (hd : d ∈ keys) (hpos : 0 < d) : least ∣ d :=
    hnested.dvd_of_le (mem_positives.mpr ⟨hd, hpos⟩) hmem (hleast.2 ⟨hd, hpos⟩)
  refine ⟨split_plain_iff hleast.1.1 hleast.1.2 hdvd hv order, fun parts h coins hcoins hsum => ?_⟩
  rw [split_plain hv] at h
  split_ifs at h
  · exact absurd h Outcome.refuse_ne_ok
  cases h
  have hle := hnested.partCount_le_card coins fun a ha => mem_positives.mpr (hcoins a ha)
  rw [hsum] at hle
  unfold partCount positives at hle
  rw [greedy_filter] at hle
  rwa [(sort_perm order _).length_eq]

/-- Seven in one, two and four; the keys of the keyset for zero and minus three do not count. -/
theorem split_fewest_seven :
    split 7 [4, 0, 1, 2, -3] [] .descending = .ok [4, 2, 1] ∧
      SplitInto 7 [4, 0, 1, 2, -3] [] .descending [4, 2, 1] ∧
      ∀ coins : Multiset Int, (∀ a ∈ coins, a ∈ [4, 0, 1, 2, -3] ∧ 0 < a) → coins.sum = 7 →
        3 ≤ coins.card := by
  have hkeys : descending [4, 0, 1, 2, -3] = [4, 2, 1, 0, -3] :=
    Order.descending.sort_eq (by decide) (by decide)
  have hparts : descending [4, 2, 1] = [4, 2, 1] :=
    Order.descending.sort_eq (.refl _) (by decide)
  have hsplit : split 7 [4, 0, 1, 2, -3] [] .descending = .ok [4, 2, 1] := by
    unfold split
    rw [hkeys]
    exact congrArg Except.ok hparts
  have hpositives : positives [4, 0, 1, 2, -3] = [4, 2, 1] := by
    rw [positives, hkeys]
    rfl
  have hleast : IsLeast {a | a ∈ [4, 0, 1, 2, -3] ∧ 0 < a} (1 : Int) :=
    ⟨by decide, fun a ha => ha.2⟩
  obtain ⟨hinto, -, -, hfewest⟩ := split_fewest (by decide : (0 : Int) ≤ 7) [4, 0, 1, 2, -3] [] .descending
  have hchain : (positives [4, 0, 1, 2, -3]).IsChain fun d e => e ∣ d := by
    rw [hpositives]
    decide
  exact ⟨hsplit, hinto _ hsplit, (hfewest 1 hleast hchain).2 _ hsplit⟩

end Ecash.Amount
