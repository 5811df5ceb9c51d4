import Ecash.Proofs.Program.Ends
import Ecash.Proofs.Selection.Soundness
import Mathlib.Algebra.Order.BigOperators.Group.List

/-!
# A close selection misses nothing

Where some of the proofs reach the target, a close selection finds such proofs,
whatever its order, time and bounds (`select_close_finds`). What a collection
reaches is decided by its weight, a sum of worths: leaving out those worth
nothing and those beyond the first that reaches the goal alone does not take the
sum of the rest below the goal (`le_candidates`), the fill goes on until the
target is reached (`fill_reaches`), and no exchange gives it up (`exchange_reaches`).
-/
namespace Ecash.Selection

open Program

variable {chain : KeyChain} {proofs : List Proof} {r : Request} {cs : List Candidate}

/-- Some of the proofs are together worth the target. -/
def Coverable (chain : KeyChain) (r : Request) (proofs : List Proof) : Prop :=
  ∃ qs : List Proof, qs.Subperm proofs ∧
    ∃ net, netAmount chain r.includeFees qs = .ok net ∧ r.target ≤ net

/-- The product that limits what is paid over the target is a number. -/
def Limits.Bounded (l : Limits) (target : Int) : Prop :=
  ∃ x c, Decimal.ofInt? target = some x ∧ Decimal.ceil? (x * (1 + l.overagePercent / 100)) = some c

theorem Limits.Bounded.most {l : Limits} {target : Int} (h : l.Bounded target) (available : Int) :
    ∃ most, l.most target available = .ok most := by
  obtain ⟨x, c, hx, hc⟩ := h
  exact ⟨_, by simp only [Limits.most, hx, hc]; rfl⟩

/-! ## Priced proofs -/

/-- The rate of a proof, zero where there is none. -/
def rate (chain : KeyChain) (q : Proof) : Int := (Fee.proofPpk chain q).toOption.getD 0

/-- What a proof on its own adds to a selection, in thousandths; nothing if it
costs more than it brings. -/
def gain (chain : KeyChain) (r : Request) (q : Proof) : Int :=
  max 0 (r.worth ⟨0, q.amount, rate chain q⟩)

/-- The candidate for a proof at its place. -/
def offer (chain : KeyChain) (z : Proof × Nat) : Candidate := ⟨z.2, z.1.amount, rate chain z.1⟩

theorem offers_total (hp : Priced chain proofs) :
    offers chain proofs = .ok (proofs.zipIdx.map (offer chain)) := by
  refine Outcome.mapM_ok_iff.mpr (List.forall₂_map_right_iff.mpr (List.forall₂_same.mpr ?_))
  rintro ⟨q, i⟩ hq
  obtain ⟨-, ppk, h, -⟩ := hp q (List.fst_mem_of_mem_zipIdx hq)
  simp only [h, offer, rate]
  rfl

/-- What a proof on its own brings less what it costs, in thousandths. -/
def margin (chain : KeyChain) (r : Request) (q : Proof) : Int := r.worth ⟨0, q.amount, rate chain q⟩

/-- What proofs are worth together is the sum of their margins, in whole units. -/
theorem netAmount_margins (hp : Priced chain proofs) :
    ∃ net, netAmount chain r.includeFees proofs = .ok net ∧
      ∀ n, n ≤ net ↔ n * 1000 ≤ (proofs.map (margin chain r)).sum := by
  have ho := offers_spec (offers_total hp)
  have hn := netAmount_arranged (r := r) ho.2
  rw [ho.1, arranged_range] at hn
  refine ⟨_, hn, fun n => ?_⟩
  have hsum : r.weight (.of (proofs.zipIdx.map (offer chain))) =
      (proofs.map (margin chain r)).sum := by
    rw [Request.weight_of, List.map_map]
    change (proofs.zipIdx.map (margin chain r ∘ Prod.fst)).sum = _
    rw [← List.map_map, List.zipIdx_map_fst]
  rw [Request.le_net_iff, hsum]

/-- What proofs are worth reaches just those amounts that their margins reach. -/
theorem le_netAmount_iff (hp : Priced chain proofs) {net n : Int}
    (h : netAmount chain r.includeFees proofs = .ok net) :
    n ≤ net ↔ n * 1000 ≤ (proofs.map (margin chain r)).sum := by
  obtain ⟨net', hnet, hiff⟩ := netAmount_margins (r := r) hp
  obtain rfl : net' = net := Except.ok.inj (hnet.symm.trans h)
  exact hiff n

/-- Proofs are worth together at most what each adds on its own. -/
theorem netAmount_le_gain (hp : Priced chain proofs) {net : Int}
    (h : netAmount chain r.includeFees proofs = .ok net) :
    net * 1000 ≤ (proofs.map (gain chain r)).sum := by
  have hle : (proofs.map (margin chain r)).sum ≤ (proofs.map (gain chain r)).sum :=
    List.sum_le_sum fun _ _ => le_max_right _ _
  exact ((le_netAmount_iff hp h).mp (le_refl net)).trans hle

/-- Those who take part are worth together what each is, if it is worth something. -/
theorem worthwhile_sum (r : Request) {os : List Candidate} (h : ∀ c ∈ os, 0 ≤ c.amount) :
    ((worthwhile r os).map r.worth).sum = (os.map fun c => max 0 (r.worth c)).sum := by
  unfold worthwhile
  split
  · clear h
    induction os with
    | nil => rfl
    | cons c os ih =>
      rw [List.map_cons, List.sum_cons, ← ih]
      by_cases hc : 0 < r.worth c
      · rw [List.filter_cons_of_pos (by simpa using hc), List.map_cons, List.sum_cons, max_eq_right hc.le]
      · rw [List.filter_cons_of_neg (by simpa using hc), max_eq_left (by omega), Int.zero_add]
  · rename_i hf
    refine congrArg List.sum (List.map_congr_left fun c hc => ?_)
    have hc := h c hc
    unfold Request.worth
    rw [if_neg hf]
    omega

/-- What takes part in a selection is worth what the proofs add each on its own. -/
theorem worthwhile_gain (hp : Priced chain proofs) {os : List Candidate}
    (ho : offers chain proofs = .ok os) :
    ((worthwhile r os).map r.worth).sum = (proofs.map (gain chain r)).sum := by
  rw [offers_total hp] at ho
  cases ho
  rw [worthwhile_sum, List.map_map]
  · change (proofs.zipIdx.map (gain chain r ∘ Prod.fst)).sum = _
    rw [← List.map_map, List.zipIdx_map_fst]
  · rintro _ hc
    obtain ⟨⟨q, i⟩, hq, rfl⟩ := List.mem_map.mp hc
    exact (hp q (List.fst_mem_of_mem_zipIdx hq)).1

/-! ## Pruning -/

/-- Where all reach the goal, those who are left do: the first that reaches it alone
is among them, and none of them costs more than it brings. -/
theorem le_prune (hc : r.exact = false) (hw : ∀ c ∈ prune r cs, 0 ≤ r.worth c)
    (h : r.goal ≤ (cs.map r.worth).sum) : r.goal ≤ ((prune r cs).map r.worth).sum := by
  unfold prune at hw ⊢
  rw [hc] at hw ⊢
  simp only [Bool.false_eq_true, if_false] at hw ⊢
  split at hw
  · exact h
  · rename_i c high hd
    have hr : r.goal ≤ r.worth c := by
      have hc := List.head?_dropWhile_not (r.worth · < r.goal) cs
      rw [hd] at hc
      simpa using hc
    have hm : c ∈ cs.takeWhile (r.worth · ≤ r.worth c) := by
      rw [← List.takeWhile_append_dropWhile (p := (r.worth · < r.goal)) (l := cs), hd,
        List.takeWhile_append_of_pos, List.takeWhile_cons_of_pos]
      · simp
      · simp
      · intro a ha
        have := List.mem_takeWhile_imp ha
        simp at this ⊢
        omega
    have hs := List.single_le_sum (l := (cs.takeWhile (r.worth · ≤ r.worth c)).map r.worth)
      (by simpa using hw) _ (List.mem_map_of_mem hm)
    exact hr.trans hs

/-- Where some of the proofs reach the target, the candidates do together. -/
theorem le_candidates (hc : r.exact = false) (hp : Priced chain proofs) {os : List Candidate}
    (ho : offers chain proofs = .ok os) (h : Coverable chain r proofs) :
    r.target ≤ r.net (.of (candidates r os)) := by
  obtain ⟨qs, ⟨l, hl, hs⟩, net, hn, ht⟩ := h
  have hq : Priced chain qs := fun q hq => hp q (hs.subset (hl.symm.subset hq))
  have hg : (qs.map (gain chain r)).sum ≤ (proofs.map (gain chain r)).sum := by
    rw [← (hl.map _).sum_eq]
    refine (hs.map _).sum_le_sum fun x hx => ?_
    obtain ⟨q, -, rfl⟩ := List.mem_map.mp hx
    exact le_max_left _ _
  rw [Request.le_net_iff, Request.weight_of]
  refine le_prune hc ?_ ?_
  · exact fun c hc => (worthwhile_candidates hp (offers_spec ho).2).worth_nonneg hc
  · have hn := netAmount_le_gain hq hn
    rw [((ascending_perm r _).map _).sum_eq, worthwhile_gain hp ho, Request.goal]
    omega

/-! ## Filling and exchanging -/

/-- The fill reaches the target, if everything does. -/
theorem fill_reaches (hc : r.exact = false) {order : List Candidate} {t : Totals}
    (h : r.goal ≤ r.weight t + (order.map r.worth).sum) : r.target ≤ r.net (fill r order t).2 := by
  fun_induction fill r order t with
  | case1 t =>
    rw [Request.le_net_iff]
    simpa [Request.goal] using h
  | case2 c rest t t' hx => simp [hc] at hx
  | case3 c rest t t' _ hx => exact hx
  | case4 c rest t t' _ _ more total hm ih =>
    rw [hm] at ih
    refine ih ?_
    simp only [t', Request.weight_plus, List.map_cons, List.sum_cons] at h ⊢
    omega

theorem start_reaches (hc : r.exact = false) (h : r.target ≤ r.net (.of cs))
    (order : Shuffle cs.length) : r.target ≤ r.net (Trial.start r cs order).totals := by
  have hp := arranged_shuffle order
  refine fill_reaches hc ?_
  rw [(hp.map _).sum_eq, ← Request.weight_of, Request.weight_zero, Int.zero_add]
  exact Request.le_net_iff.mp h

/-- Whoever comes in makes up for the one who goes out. -/
theorem exchange_reaches (hc : r.exact = false) {s : Trial} (h : r.target ≤ r.net s.totals) (i : Nat) :
    r.target ≤ r.net (s.exchange r i).totals := by
  obtain he | ⟨out, inn, rest, -, hp, -, he⟩ := exchange_cases r s i
  · rwa [he]
  · rw [he]
    rw [Trial.partner?, hc] at hp
    exact Request.le_net_plus (takeAtLeast?_worth hp)

theorem exchanges_reach (hc : r.exact = false) (h : r.target ≤ r.net (.of cs))
    (order : Shuffle cs.length) (most : Int) (is : List Nat) :
    r.target ≤ r.net ((Trial.start r cs order).exchanges r most is).totals := by
  refine exchanges_induct (P := fun s => r.target ≤ r.net s.totals) ?_ ?_ most _
  · exact start_reaches hc h order
  · exact fun s i hs => exchange_reaches hc hs i

theorem improve_reaches {s : Trial} (h : r.target ≤ r.net s.totals) (best : Option Best) :
    (s.improve r best).isSome := by
  have he := Request.excess?_eq_some.mpr ⟨h, rfl⟩
  unfold Trial.improve
  rw [he]
  dsimp only
  split
  · rfl
  · rename_i hb
    cases best with
    | none => simp at hb
    | some b => rfl

/-! ## Searching -/

variable {A : Exchange → Prop} {l : Limits} {most : Int} {started : Float}

theorem trial_reaches (hc : r.exact = false) (h : r.target ≤ r.net (.of cs)) :
    (trial r l most cs).Achieves A fun s => r.target ≤ r.net s.totals := by
  unfold trial
  refine achieves_asked.bind fun order _ => achieves_asked.bind fun is _ => achieves_pure ?_
  exact exchanges_reach hc h order most _

/-- Time only ends a search that has found something. -/
theorem search_reaches (hc : r.exact = false) (h : r.target ≤ r.net (.of cs)) {n : Nat}
    {best : Option Best} (hn : 0 < n ∨ best.isSome) :
    (search r l most cs started n best).Achieves A (·.isSome) := by
  induction n generalizing best with
  | zero => exact achieves_pure (hn.resolve_left (lt_irrefl 0))
  | succ n ih =>
    rw [search]
    refine (trial_reaches hc h).bind fun s hs => ?_
    have hb := improve_reaches hs best
    dsimp only
    split
    · exact achieves_pure hb
    · refine achieves_asked.bind fun now _ => ?_
      split
      · refine achieves_asked.bind fun _ _ => ?_
        rw [hc]
        exact achieves_asked.bind fun _ _ => achieves_pure hb
      · exact ih (.inr hb)

/-- A close selection never fails, and where some of the proofs reach the target it
does not keep everything. -/
theorem choose_reaches (hp : Priced chain proofs) (hc : r.exact = false) (hn : 0 < l.trials)
    (hm : 0 < r.target → l.Bounded r.target) :
    (choose chain l r proofs).Achieves A fun found =>
      0 < r.target → Coverable chain r proofs → found.send ≠ [] := by
  obtain ⟨os, ho⟩ : ∃ os, offers chain proofs = .ok os := ⟨_, offers_total hp⟩
  unfold choose
  refine achieves_asked.bind fun started _ => (achieves_lift ho rfl).bind ?_
  rintro _ rfl
  dsimp only
  split
  · rename_i h
    refine achieves_pure fun ht hcov => ?_
    have := le_candidates hc hp ho hcov
    omega
  · rename_i h
    have ht : 0 < r.target := by omega
    have ha : r.target ≤ r.net (.of (candidates r os)) := by omega
    obtain ⟨most, hmost⟩ := (hm ht).most (r.net (.of (candidates r os)))
    refine (achieves_lift hmost (Q := fun _ => True) trivial).bind fun most _ => ?_
    have hw := worthwhile_candidates (r := r) hp (offers_spec ho).2
    refine ((search_reaches hc ha (.inl hn)).and fun _ _ =>
      search_inv (candidates_nodup ho) hw ht (by simp [BestInv])).bind fun best ⟨hb, hi⟩ => ?_
    obtain ⟨b, rfl⟩ := Option.isSome_iff_exists.mp hb
    refine achieves_asked.bind fun _ _ => achieves_pure fun _ _ => ?_
    exact (chosen_meets ht ho (hi b rfl)).2.1

/-- A close selection comes to an end, and to proofs to send where some of them are worth
the target. -/
theorem select_reaches (hp : Priced chain proofs) (hc : r.exact = false) (hn : 0 < l.trials)
    (hm : 0 < r.target → l.Bounded r.target) :
    (select chain l r proofs).Achieves (fun _ => True) fun found =>
      0 < r.target → Coverable chain r proofs → found.send ≠ [] := by
  unfold select
  refine Ends.bind (Ends.attempt ?_)
  refine Ends.mono (choose_reaches hp hc hn hm) ?_
  rintro _ ⟨found, rfl, h⟩
  exact achieves_asked.bind fun _ _ => ⟨found, rfl, h⟩

/-- What a close selection returns: proofs to send exactly where some of them are
together worth a target above zero. -/
theorem select_close_finds {σ : Type} (handle : (c : Command) → σ → c.Answer × σ) (s : σ)
    (chain : KeyChain) (l : Limits) (r : Request) (proofs : List Proof) (hp : Priced chain proofs)
    (hc : r.exact = false) (hn : 0 < l.trials) (hm : 0 < r.target → l.Bounded r.target) :
    ∃ found, ((select chain l r proofs).run handle s).1 = .ok found ∧
      (found.send ≠ [] ↔ 0 < r.target ∧ Coverable chain r proofs) := by
  obtain ⟨found, hf, h⟩ : ∃ found, ((select chain l r proofs).run handle s).1 = .ok found ∧ _ :=
    (select_reaches hp hc hn hm).run fun _ _ => trivial
  refine ⟨found, hf, fun hs => ?_, fun ⟨ht, hcov⟩ => h ht hcov⟩
  rcases select_cases hp (hf ▸ yields_run handle _ s) with rfl | ⟨ht, os, b, ho, hb, rfl⟩
  · exact absurd rfl hs
  · obtain ⟨⟨is, hi, hsub⟩, -, net, hnet, hge, -⟩ := chosen_meets ht ho hb
    refine ⟨ht, arranged proofs b.chosen, ?_, net, hnet, hge⟩
    have hs := (hsub.filterMap (proofs[·]?)).subperm
    rw [← arranged, ← arranged, arranged_range] at hs
    exact (arranged_perm hi).symm.subperm.trans hs

/-- Time is up after the first trial; the proof worth 7 after its fee is sent. -/
theorem select_close_finds_overtime : ∃ found, ((select costly.1 .standard ⟨7, true, false⟩ costly.2).run
    (World.handle .secp256k1) { World.fresh none (.fresh []) with clockStep := 2.0 }).1 = .ok found ∧
      found.send ≠ [] := by
  have hp : Priced costly.1 costly.2 := by decide
  have hm : 0 < (7 : Int) → Limits.standard.Bounded 7 :=
    fun _ => ⟨7.0, 7, by decide +kernel, by decide +kernel⟩
  obtain ⟨found, hf, hs⟩ := select_close_finds (World.handle .secp256k1)
    { World.fresh none (.fresh []) with clockStep := 2.0 } costly.1 .standard ⟨7, true, false⟩ costly.2
    hp rfl (by decide) hm
  have hsub : (costly.2.drop 1).Subperm costly.2 := (List.drop_sublist 1 costly.2).subperm
  exact ⟨found, hf, hs.mpr ⟨by decide, costly.2.drop 1, hsub, 7, by decide +kernel, by decide⟩⟩

end Ecash.Selection
