import Ecash.Proofs.Amount.Fewest

/-!
# Topping a wallet up

Parts that the wallet is short of are added one denomination after the other. Of each there are
as many as the wallet is short of, or so many that no other fits (`topUp_eq_replicate`); so, the
smallest first, every denomination is served or costs more than what is left
(`topUps_served`). Whatever is left is split as usual, which works out as it does for
the whole amount where the least denomination divides all others (`canonical_rest_iff`).
-/
namespace Ecash.Amount

variable {held ds keys parts : List Int} {value target limit total : Int}

/-! ## One denomination -/

/-- All that is asked for, or as much as fits. -/
theorem topUp_eq_replicate (d limit : Int) (n : Nat) (total : Int) : ∃ k ≤ n,
    topUp d limit n total = List.replicate k d ∧ (k = n ∨ limit < total + (List.replicate k d).sum + d) := by
  induction n generalizing total with
  | zero => exact ⟨0, Nat.le_refl 0, rfl, .inl rfl⟩
  | succ n ih =>
    unfold topUp
    split
    · rename_i hfull
      exact ⟨0, Nat.zero_le _, rfl, .inr (by simpa using hfull)⟩
    · obtain ⟨k, hk, heq, hstop⟩ := ih (total + d)
      refine ⟨k + 1, Nat.succ_le_succ hk, by rw [heq]; rfl, ?_⟩
      rw [List.replicate_succ, List.sum_cons, ← Int.add_assoc]
      exact hstop.imp_left (congrArg (· + 1))

/-! ## All denominations -/

theorem topUps_cons (held : List Int) (limit target d : Int) (ds : List Int) (total : Int) :
    topUps held limit target (d :: ds) total =
      topUp d limit (target - held.count d).toNat total ++
        topUps held limit target ds
          (total + (topUp d limit (target - held.count d).toNat total).sum) := rfl

/-- Only what the wallet is short of is topped up. -/
theorem mem_topUps {a : Int} (h : a ∈ topUps held limit target ds total) :
    a ∈ ds ∧ held.count a < target := by
  induction ds generalizing total with
  | nil => cases h
  | cons d ds ih =>
    rw [topUps_cons] at h
    rcases List.mem_append.mp h with h | h
    · obtain ⟨k, hk, heq, -⟩ := topUp_eq_replicate d limit (target - held.count d).toNat total
      rw [heq] at h
      obtain ⟨hne, rfl⟩ := List.mem_replicate.mp h
      exact ⟨List.mem_cons_self, by omega⟩
    · exact (ih h).imp_left (List.mem_cons_of_mem d)

/-- What costs nothing is topped up whenever the wallet is short of it. -/
theorem mem_topUps_of_nonpos {a : Int} (ha : a ∈ ds) (hnonpos : a ≤ 0) (hshort : held.count a < target)
    (hle : total ≤ limit) : a ∈ topUps held limit target ds total := by
  induction ds generalizing total with
  | nil => cases ha
  | cons d ds ih =>
    have hrest : total + (topUp d limit (target - held.count d).toNat total).sum ≤ limit :=
      topUp_sum_le hle
    rw [topUps_cons]
    rcases List.mem_cons.mp ha with rfl | ha
    · obtain ⟨k, -, heq, hstop⟩ := topUp_eq_replicate a limit (target - held.count a).toNat total
      rw [heq] at hrest
      refine List.mem_append_left _ (heq ▸ List.mem_replicate.mpr ⟨?_, rfl⟩)
      omega
    · exact List.mem_append_right _ (ih ha hrest)

/-- No denomination is topped up beyond its target. -/
theorem count_topUps_le (hds : ds.Nodup) (a : Int) :
    (topUps held limit target ds total).count a ≤ (target - held.count a).toNat := by
  induction ds generalizing total with
  | nil => exact Nat.zero_le _
  | cons d ds ih =>
    obtain ⟨hd, hds⟩ := List.nodup_cons.mp hds
    obtain ⟨k, hk, heq, -⟩ := topUp_eq_replicate d limit (target - held.count d).toNat total
    rw [topUps_cons, List.count_append, heq, List.count_replicate]
    by_cases hda : d = a
    · subst hda
      have hnone : d ∉ topUps held limit target ds (total + (List.replicate k d).sum) :=
        fun h => hd (mem_topUps h).1
      rw [List.count_eq_zero_of_not_mem hnone]
      simpa using hk
    · simpa [hda] using ih hds

/-- The wallet comes to its target of a denomination, or what is left when it and all smaller
ones have been topped up does not pay for one more. -/
def Served (held tops : List Int) (target left d : Int) : Prop :=
  target ≤ held.count d + tops.count d ∨ left - (tops.filter (· ≤ d)).sum < d

theorem topUps_served (hpos : ∀ d ∈ ds, 0 < d) (hds : ds.Pairwise (· ≤ ·)) (total : Int) :
    ∀ d ∈ ds, Served held (topUps held limit target ds total) target (limit - total) d := by
  induction ds generalizing total with
  | nil => nofun
  | cons e ds ih =>
    obtain ⟨hle, hds⟩ := List.pairwise_cons.mp hds
    intro d hd
    obtain ⟨k, -, heq, hstop⟩ := topUp_eq_replicate e limit (target - held.count e).toNat total
    rw [topUps_cons, heq]
    have hfilter {d : Int} (h : e ≤ d) :
        (List.replicate k e).filter (· ≤ d) = List.replicate k e :=
      List.filter_eq_self.mpr fun a ha => by simpa [List.eq_of_mem_replicate ha] using h
    unfold Served
    rw [List.count_append, List.filter_append, List.sum_append]
    rcases List.mem_cons.mp hd with rfl | hd
    · -- larger denominations come later, and only take away from what is left
      have hlater : 0 ≤ ((topUps held limit target ds (total + (List.replicate k d).sum)).filter
          (· ≤ d)).sum :=
        List.sum_nonneg fun a ha =>
          (hpos a (List.mem_cons_of_mem d (mem_topUps (List.mem_of_mem_filter ha)).1)).le
      rw [hfilter (Int.le_refl d), List.count_replicate_self]
      rcases hstop with rfl | hstop
      · left
        omega
      · right
        omega
    · rw [hfilter (hle d hd)]
      rcases ih (fun a ha => hpos a (List.mem_cons_of_mem e ha)) hds (total + (List.replicate k e).sum) d hd with hserved | hleft
      · left
        omega
      · right
        omega

/-! ## The rest -/

/-- The parts are those that top the wallet up, and those of the rest. -/
theorem keepAmounts_ok_iff : keepAmounts held value keys target = .ok parts ↔
    ∃ rest, canonical (value - (topUps held value target (ascending keys) 0).sum) keys = .ok rest ∧
      parts = ascending (topUps held value target (ascending keys) 0 ++ rest) := by
  unfold keepAmounts
  dsimp only
  split
  · rename_i hnone
    rw [hnone, canonical_zero, Outcome.pure_ok_iff]
    constructor
    · rintro rfl
      exact ⟨[], rfl, by rw [List.append_nil]⟩
    · rintro ⟨_, ⟨⟩, rfl⟩
      rw [List.append_nil]
  · simp only [Outcome.bind_ok_iff, Outcome.pure_ok_iff]

theorem topUps_le (hv : 0 ≤ value) (held keys : List Int) (target : Int) :
    (topUps held value target (ascending keys) 0).sum ≤ value := by
  have hzero : 0 + (topUps held value target (ascending keys) 0).sum ≤ value := topUps_sum_le hv
  rwa [Int.zero_add] at hzero

/-- Parts are denominations; those that are not positive are there because the wallet was
short of them. -/
theorem mem_keepAmounts {a : Int} (hv : 0 ≤ value) (h : keepAmounts held value keys target = .ok parts)
    (ha : a ∈ parts) : a ∈ keys ∧ (0 < a ∨ held.count a < target) := by
  obtain ⟨rest, hrest, rfl⟩ := keepAmounts_ok_iff.mp h
  rcases List.mem_append.mp (mem_ascending.mp ha) with ha | ha
  · exact (mem_topUps ha).imp mem_ascending.mp .inr
  · exact (mem_canonical (Int.sub_nonneg.mpr (topUps_le hv held keys target)) hrest ha).imp_right .inl

/-- All parts are positive exactly when there is enough of every denomination that is not. -/
theorem keepAmounts_pos_iff (hv : 0 ≤ value) (h : keepAmounts held value keys target = .ok parts) :
    (∀ a ∈ parts, 0 < a) ↔ ∀ a ∈ keys, a ≤ 0 → target ≤ held.count a := by
  constructor
  · intro hpos a ha hnonpos
    by_contra hshort
    have htop : a ∈ topUps held value target (ascending keys) 0 :=
      mem_topUps_of_nonpos (mem_ascending.mpr ha) hnonpos (Int.not_le.mp hshort) hv
    obtain ⟨rest, -, rfl⟩ := keepAmounts_ok_iff.mp h
    exact absurd (hpos a (mem_ascending.mpr (List.mem_append_left rest htop))) (Int.not_lt.mpr hnonpos)
  · intro henough a ha
    obtain ⟨hmem, hpos | hshort⟩ := mem_keepAmounts hv h ha
    · exact hpos
    · by_contra hnonpos
      exact absurd (henough a hmem (Int.not_lt.mp hnonpos)) (Int.not_le.mpr hshort)

/-- Where the least denomination divides all others, what is left has parts exactly when the
whole has. -/
theorem canonical_rest_iff (hv : 0 ≤ value) (hpos : ∀ d ∈ keys, 0 < d)
    (hdvd : ∀ g, IsLeast {d | d ∈ keys} g → ∀ d ∈ keys, g ∣ d) {tops : List Int}
    (htops : ∀ a ∈ tops, a ∈ keys) (hle : tops.sum ≤ value) :
    (∃ rest, canonical (value - tops.sum) keys = .ok rest) ↔
      ∃ parts, canonical value keys = .ok parts := by
  rcases hkeys : ascending keys with _ | ⟨g, others⟩
  · -- without denominations nothing is topped up
    have hnil : tops = [] := List.eq_nil_iff_forall_not_mem.mpr fun a ha => by
      have hmem := mem_ascending.mpr (htops a ha)
      rw [hkeys] at hmem
      cases hmem
    rw [hnil, List.sum_nil, Int.sub_zero]
  · have hmem (d : Int) : d ∈ keys ↔ d ∈ g :: others := by rw [← hkeys, mem_ascending]
    have hsorted := ascending_pairwise keys
    rw [hkeys, List.pairwise_cons] at hsorted
    have hg : g ∈ keys := (hmem g).mpr List.mem_cons_self
    have hleast : IsLeast {d | d ∈ keys} g := by
      refine ⟨hg, fun d hd => ?_⟩
      rcases List.mem_cons.mp ((hmem d).mp hd) with rfl | hd
      · exact Int.le_refl d
      · exact hsorted.1 d hd
    have hall := hdvd g hleast
    have hsum : g ∣ tops.sum := List.dvd_sum fun a ha => hall a (htops a ha)
    unfold canonical
    rw [split_plain_iff hg (hpos g hg) (fun d hd _ => hall d hd) (by omega),
      split_plain_iff hg (hpos g hg) (fun d hd _ => hall d hd) hv]
    exact dvd_sub_left hsum

/-- Parts of a value that top the wallet up. -/
structure ToppedUp (held keys : List Int) (target value : Int) (parts : List Int) : Prop where
  ascending : parts.Pairwise (· ≤ ·)
  sum : parts.sum = value
  mem : ∀ a ∈ parts, a ∈ keys
  /-- Parts that bring the wallet to no more than its target, and a split of the rest. -/
  tops : ∃ tops rest, parts.Perm (tops ++ rest) ∧ canonical (value - tops.sum) keys = .ok rest ∧
    (keys.Nodup → ∀ a, tops.count a ≤ (target - held.count a).toNat) ∧
    ∀ d ∈ keys, Served held tops target value d

/-- For every wallet, every amount that is not negative, every target, and all positive amounts
of a keyset of which the least divides the others: there are parts that top the wallet up
exactly when there are parts at all. They ascend, add up to the amount, and are amounts of the
keyset. The smallest denomination is served first: with the parts that top the wallet up, none
of them beyond the target, the wallet comes to its target of a denomination, or what is left
when this one and all smaller ones have been topped up does not pay for one more. -/
theorem keepAmounts_tops_up (hv : 0 ≤ value) (hpos : ∀ d ∈ keys, 0 < d)
    (hdvd : ∀ g, IsLeast {d | d ∈ keys} g → ∀ d ∈ keys, g ∣ d) (held : List Int) (target : Int) :
    ((∃ parts, keepAmounts held value keys target = .ok parts) ↔
        ∃ parts, canonical value keys = .ok parts) ∧
      ∀ parts, keepAmounts held value keys target = .ok parts →
        ToppedUp held keys target value parts := by
  let tops := topUps held value target (Amount.ascending keys) 0
  have htops (a : Int) (ha : a ∈ tops) : a ∈ keys := mem_ascending.mp (mem_topUps ha).1
  have hle : tops.sum ≤ value := topUps_le hv held keys target
  constructor
  · rw [← canonical_rest_iff hv hpos hdvd htops hle]
    simp only [keepAmounts_ok_iff]
    constructor
    · rintro ⟨_, rest, hrest, -⟩
      exact ⟨rest, hrest⟩
    · rintro ⟨rest, hrest⟩
      exact ⟨_, rest, hrest, rfl⟩
  · intro parts h
    have hsum := keepAmounts_sum hv h
    obtain ⟨rest, hrest, rfl⟩ := keepAmounts_ok_iff.mp h
    have hperm : (Amount.ascending (tops ++ rest)).Perm (tops ++ rest) := sort_perm .ascending _
    refine ⟨ascending_pairwise _, hsum, fun a ha => (mem_keepAmounts hv h ha).1, tops, rest, hperm,
      hrest, fun hkeys a => ?_, fun d hd => ?_⟩
    · exact count_topUps_le ((sort_perm .ascending keys).nodup_iff.mpr hkeys) a
    · have hserved : Served held tops target (value - 0) d :=
        topUps_served (fun e he => hpos e (mem_ascending.mp he)) (ascending_pairwise keys) 0 d
          (mem_ascending.mpr hd)
      rwa [Int.sub_zero] at hserved

/-- Two ones and a two are held. Out of eight they are topped up by a one and two twos; the three
that are left do not pay for a four. -/
theorem keepAmounts_tops_up_eight :
    keepAmounts [1, 2, 1] 8 [2, 4, 1] 3 = .ok [1, 1, 2, 2, 2] ∧
      ToppedUp [1, 2, 1] [2, 4, 1] 3 8 [1, 1, 2, 2, 2] := by
  have hkeys : Amount.ascending [2, 4, 1] = [1, 2, 4] := Order.ascending.sort_eq (by decide) (by decide)
  have hdescending : descending [2, 4, 1] = [4, 2, 1] := Order.descending.sort_eq (by decide) (by decide)
  have hrest : canonical 3 [2, 4, 1] = .ok [1, 2] := by
    unfold canonical split
    rw [hdescending]
    exact congrArg Except.ok (Order.ascending.sort_eq (by decide) (by decide))
  have hkeep : keepAmounts [1, 2, 1] 8 [2, 4, 1] 3 = .ok [1, 1, 2, 2, 2] := by
    refine keepAmounts_ok_iff.mpr ⟨[1, 2], ?_, ?_⟩
    · rw [hkeys]
      exact hrest
    · rw [hkeys]
      exact (Order.ascending.sort_eq (by decide) (by decide)).symm
  have hpos : ∀ d ∈ ([2, 4, 1] : List Int), 0 < d := by decide
  have hdvd (g : Int) (hg : IsLeast {d | d ∈ ([2, 4, 1] : List Int)} g) : ∀ d ∈ [2, 4, 1], g ∣ d := by
    have hone : IsLeast {d | d ∈ ([2, 4, 1] : List Int)} 1 :=
      ⟨by decide, fun d hd => hpos d hd⟩
    obtain rfl := hg.unique hone
    exact fun d _ => one_dvd d
  exact ⟨hkeep, (keepAmounts_tops_up (by decide) hpos hdvd [1, 2, 1] 3).2 _ hkeep⟩

end Ecash.Amount
