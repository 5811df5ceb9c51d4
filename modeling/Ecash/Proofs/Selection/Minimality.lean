import Ecash.Proofs.Selection.Coverage

/-!
# A selection carries no dead weight

Whatever is selected, without any part of it the rest falls short of the target
(`select_minimal`). Members leave a subset from the least worth on as long as the target
is reached (`trim_tight`): when the least cannot be spared, no other can (`tight_of_least`),
and what a smaller subset is worth is the sum of its members' worths, none of which is
negative (`Tight.sum_lt`).
-/
namespace Ecash.Selection

open Program

variable {chain : KeyChain} {proofs : List Proof} {r : Request} {cs : List Candidate}

/-! ## Tight sums -/

/-- Without any one of the worths, the others fall short of the goal. -/
def Tight (goal : Int) (worths : List Int) : Prop := ∀ w ∈ worths, worths.sum - w < goal

variable {goal w : Int} {ws vs : List Int}

theorem Tight.perm (h : Tight goal ws) (hp : vs.Perm ws) : Tight goal vs := by
  intro w hw
  rw [hp.sum_eq]
  exact h w (hp.subset hw)

/-- Where the others fall short without the least, they do without any. -/
theorem tight_of_least (hleast : ∀ v ∈ ws, w ≤ v) (hshort : ws.sum < goal) :
    Tight goal (w :: ws) := by
  intro v hv
  rw [List.sum_cons]
  rcases List.mem_cons.mp hv with rfl | hv
  · omega
  · have := hleast v hv
    omega

/-- Only some of the worths, if none is negative, fall short. -/
theorem Tight.sum_lt (h : Tight goal ws) (hn : ∀ w ∈ ws, 0 ≤ w) (hs : vs.Subperm ws)
    (hl : vs.length < ws.length) : vs.sum < goal := by
  -- there is room for one more
  obtain ⟨w, hw⟩ := hs.exists_of_length_lt hl
  have hmem : w ∈ ws := hw.subset List.mem_cons_self
  obtain ⟨us, hperm, hsub⟩ := hw
  have hle : us.sum ≤ ws.sum := hsub.sum_le_sum hn
  rw [hperm.sum_eq, List.sum_cons] at hle
  have hshort := h w hmem
  omega

/-! ## Trimming -/

/-- Candidates that are worth something. -/
def Gainful (r : Request) (cs : List Candidate) : Prop :=
  ∀ c ∈ cs, 0 < c.amount ∧ 0 ≤ c.feePpk ∧ 0 < r.worth c

theorem Gainful.feePpk_nonneg (h : Gainful r cs) : 0 ≤ (Totals.of cs).feePpk := by
  rw [Totals.of_eq_sums]
  refine List.sum_nonneg fun f hf => ?_
  obtain ⟨c, hc, rfl⟩ := List.mem_map.mp hf
  exact (h c hc).2.1

/-- A subset without excess is worth the target, so no member can be spared. -/
theorem tight_of_excess (hg : Gainful r cs) {e : Int} (he : r.excess? (.of cs) = some e)
    (hx : e ≤ 0) : Tight r.goal (cs.map r.worth) := by
  intro w hw
  obtain ⟨c, hc, rfl⟩ := List.mem_map.mp hw
  have hpos := (hg c hc).2.2
  have hfee := hg.feePpk_nonneg
  obtain ⟨-, rfl⟩ := Request.excess?_eq_some.mp he
  have hle : r.weight (.of cs) ≤ r.goal := by
    unfold Request.weight Request.goal
    split <;> omega
  rw [← Request.weight_of]
  omega

/-- A subset that falls short without its least member has none to spare. -/
theorem tight_of_short {c : Candidate} {rest : List Candidate} (hleast : ∀ d ∈ rest, r.worth c ≤ r.worth d)
    (h : r.excess? (.of rest) = none) : Tight r.goal ((c :: rest).map r.worth) := by
  have hshort : (rest.map r.worth).sum < r.goal := by
    have hnet := Request.excess?_eq_none.mp h
    have hiff := Request.le_net_iff (r := r) (t := .of rest) (n := r.target)
    rw [← Request.weight_of]
    unfold Request.goal
    omega
  rw [List.map_cons]
  refine tight_of_least (fun v hv => ?_) hshort
  obtain ⟨d, hd, rfl⟩ := List.mem_map.mp hv
  exact hleast d hd

/-- Trimming ends when the least member cannot be spared. -/
theorem trim_tight (ht : 0 < r.target) {rest : List Candidate} {t : Totals} {best : Best}
    (hg : Gainful r rest) (hs : rest.Pairwise fun a b => r.worth a ≤ r.worth b) (htot : t = .of rest)
    (he : r.excess? t = some best.excess) (hb : best.ascending = rest) :
    Tight r.goal ((trim r rest t best).ascending.map r.worth) := by
  fun_induction trim r rest t best with
  | case1 c d rest t best hx =>
    rw [hb]
    exact tight_of_excess hg (htot ▸ he) hx
  | case2 c d rest t best hx t' hnone =>
    have ht' : t' = .of (d :: rest) := by rw [← Totals.minus_of_cons c, ← htot]
    rw [hb]
    exact tight_of_short (List.pairwise_cons.mp hs).1 (ht' ▸ hnone)
  | case3 c d rest t best hx t' e he' hlt ih =>
    have ht' : t' = .of (d :: rest) := by rw [← Totals.minus_of_cons c, ← htot]
    have hg' : Gainful r (d :: rest) := fun a ha => hg a (List.mem_cons_of_mem _ ha)
    exact ih hg' (List.pairwise_cons.mp hs).2 ht' he' rfl
  | case4 c d rest t best hx t' e he' hge ih =>
    -- whoever leaves takes an amount along
    obtain ⟨hamount, hfee, -⟩ := hg c List.mem_cons_self
    obtain ⟨-, hold⟩ := Request.excess?_eq_some.mp he
    obtain ⟨-, hnew⟩ := Request.excess?_eq_some.mp he'
    simp only [t', Totals.minus] at hnew
    omega
  | case5 t best =>
    rw [hb]
    intro w hw
    cases hw
  | case6 c t best =>
    rw [hb]
    have hgoal : 0 < r.goal := by
      unfold Request.goal
      omega
    exact tight_of_least (by simp) (by simpa using hgoal)

/-- The best subset, if there is one, has no member to spare. -/
def BestTight (r : Request) (best : Option Best) : Prop :=
  ∀ b ∈ best, Tight r.goal (b.ascending.map r.worth)

theorem BestTight.improve (ht : 0 < r.target) (hg : Gainful r cs) {s : Trial} (hs : s.Inv cs)
    {best : Option Best} (hb : BestTight r best) : BestTight r (s.improve r best) := by
  unfold Trial.improve
  split
  · exact hb
  · rename_i e he
    split
    · obtain ⟨hsub, htot⟩ := hs.trimmed (r := r)
      rintro _ ⟨⟩
      exact trim_tight ht (fun c hc => hg c (hsub.subset hc)) (descending_reverse_pairwise r _) htot he rfl
    · exact hb

/-! ## What was selected -/

theorem gainful_candidates (hp : Priced chain proofs) (ha : ∀ q ∈ proofs, 1 ≤ q.amount)
    {os : List Candidate} (ho : ∀ c ∈ os, Offered chain proofs c) : Gainful r (candidates r os) := by
  intro c hc
  have hw := worthwhile_candidates (r := r) hp ho c hc
  obtain ⟨q, hq, hamount, -⟩ := ho c ((candidates_subperm r os).subset hc)
  have hone := ha q (List.mem_of_getElem? hq)
  refine ⟨by omega, hw.2.1, ?_⟩
  cases hf : r.includeFees with
  | true =>
    have hmem := (candidates_subperm_worthwhile r os).subset hc
    rw [worthwhile, if_pos hf, List.mem_filter, decide_eq_true_eq] at hmem
    exact hmem.2
  | false =>
    unfold Request.worth
    rw [hf, if_neg (by decide)]
    omega

/-- Proofs have the margins of the candidates that stand for them. -/
theorem margins_arranged (h : ∀ c ∈ cs, Offered chain proofs c) :
    (arranged proofs (cs.map Candidate.index)).map (margin chain r) = cs.map r.worth := by
  induction cs with
  | nil => rfl
  | cons c cs ih =>
    obtain ⟨⟨q, hq, hamount, hfee⟩, h⟩ := List.forall_mem_cons.mp h
    have hrate : rate chain q = c.feePpk := by
      unfold rate
      rw [hfee]
      rfl
    have hc : margin chain r q = r.worth c := by
      unfold margin Request.worth
      rw [hrate, hamount]
    rw [List.map_cons, arranged_cons hq, List.map_cons, List.map_cons, ih h, hc]

theorem mem_of_mem_arranged {q : Proof} {is : List Nat} (h : q ∈ arranged proofs is) : q ∈ proofs := by
  obtain ⟨i, -, hq⟩ := List.mem_filterMap.mp h
  exact List.mem_of_getElem? hq

/-- What is selected, if anything, meets the request and has no proof to spare. -/
theorem select_tight {l : Limits} {found : Partition} {tr : List Exchange}
    (hp : Priced chain proofs) (ha : ∀ q ∈ proofs, 1 ≤ q.amount)
    (h : (select chain l r proofs).Yields tr (.ok found)) (hne : found.send ≠ []) :
    (∀ q ∈ found.send, q ∈ proofs ∧ 0 < margin chain r q) ∧ Meets chain r found.send ∧
      Tight r.goal (found.send.map (margin chain r)) := by
  obtain rfl | ⟨ht, os, most, started, t, b, ho, hs, rfl⟩ := select_inv h
  · exact absurd rfl hne
  have hoffered := (offers_spec ho).2
  have hg := gainful_candidates (r := r) hp ha hoffered
  have hinv : b.Inv r (candidates r os) :=
    search_inv (candidates_nodup ho) (worthwhile_candidates hp hoffered) ht (by simp [BestInv]) hs b rfl
  have htight : Tight r.goal (b.ascending.map r.worth) := by
    have hbest : BestTight r (some b) := search_induct (candidates_nodup ho) ht
      (fun _ _ hs _ hb => hb.improve ht hg hs) (by simp [BestTight]) hs
    exact hbest b rfl
  have hsub : ∀ c ∈ b.ascending.reverse, c ∈ candidates r os := fun c hc =>
    hinv.subset.subset (List.mem_reverse.mp hc)
  have hmargins : ((divide proofs b.chosen).send).map (margin chain r) =
      b.ascending.reverse.map r.worth :=
    margins_arranged fun c hc => hoffered c ((candidates_subperm r os).subset (hsub c hc))
  refine ⟨fun q hq => ⟨mem_of_mem_arranged hq, ?_⟩, (chosen_meets ht ho hinv).2.2, ?_⟩
  · have hm := List.mem_map_of_mem (f := margin chain r) hq
    rw [hmargins] at hm
    obtain ⟨c, hc, he⟩ := List.mem_map.mp hm
    rw [← he]
    exact (hg c (hsub c hc)).2.2
  · rw [hmargins]
    exact htight.perm ((List.reverse_perm _).map _)

variable {sent qs : List Proof} {q : Proof}

/-- Where no proof can be spared, any smaller collection is worth less than the target. -/
theorem net_lt_of_tight (hp : Priced chain sent) (hpos : ∀ q ∈ sent, 0 < margin chain r q)
    (ht : Tight r.goal (sent.map (margin chain r))) (hs : qs.Subperm sent)
    (hl : qs.length < sent.length) :
    ∃ net, netAmount chain r.includeFees qs = .ok net ∧ net < r.target := by
  obtain ⟨net, hnet, hiff⟩ := netAmount_margins (r := r) fun q hq => hp q (hs.subset hq)
  have hmargins : (qs.map (margin chain r)).Subperm (sent.map (margin chain r)) := by
    obtain ⟨ps, hperm, hsublist⟩ := hs
    exact ⟨ps.map (margin chain r), hperm.map _, hsublist.map _⟩
  have hlt : (qs.map (margin chain r)).sum < r.goal := by
    refine ht.sum_lt ?_ hmargins (by simpa using hl)
    intro w hw
    obtain ⟨q, hq, rfl⟩ := List.mem_map.mp hw
    exact (hpos q hq).le
  have hreach := hiff r.target
  unfold Request.goal at hlt
  exact ⟨net, hnet, by omega⟩

theorem margin_le (hp : Priced chain sent) (hq : q ∈ sent) : margin chain r q ≤ q.amount * 1000 := by
  obtain ⟨-, ppk, hppk, hnonneg⟩ := hp q hq
  have hrate : 0 ≤ rate chain q := by
    unfold rate
    rw [hppk]
    exact hnonneg
  unfold margin Request.worth
  dsimp only
  split <;> omega

/-- Where no proof can be spared, the target is passed by less than any proof brings. -/
theorem excess_lt_of_tight (hp : Priced chain sent) (ht : Tight r.goal (sent.map (margin chain r)))
    {net : Int} (hnet : netAmount chain r.includeFees sent = .ok net) (hq : q ∈ sent) :
    net - r.target < q.amount ∧ (net - r.target) * 1000 < margin chain r q := by
  have hsum := (le_netAmount_iff hp hnet).mp (le_refl net)
  have hspare := ht _ (List.mem_map_of_mem hq)
  have hle := margin_le (r := r) hp hq
  unfold Request.goal at hspare
  omega

/-- Whatever the clock reads and in whatever order candidates are tried: of what is
selected, any smaller collection is worth less than the target. So the selection passes
the target by less than any of its proofs brings. -/
theorem select_minimal {σ : Type} (handle : (c : Command) → σ → c.Answer × σ) (s : σ)
    (chain : KeyChain) (l : Limits) (r : Request) (proofs : List Proof) (found : Partition)
    (hp : Priced chain proofs) (ha : ∀ q ∈ proofs, 1 ≤ q.amount)
    (h : ((select chain l r proofs).run handle s).1 = .ok found) (hne : found.send ≠ []) :
    (∀ qs : List Proof, qs.Subperm found.send → qs.length < found.send.length →
        ∃ net, netAmount chain r.includeFees qs = .ok net ∧ net < r.target) ∧
      ∃ net, netAmount chain r.includeFees found.send = .ok net ∧ r.target ≤ net ∧
        ∀ q ∈ found.send, net - r.target < q.amount ∧
          (net - r.target) * 1000 < margin chain r q := by
  obtain ⟨hsent, hmeets, htight⟩ := select_tight hp ha (h ▸ yields_run handle _ s) hne
  have hpriced : Priced chain found.send := fun q hq => hp q (hsent q hq).1
  constructor
  · intro qs hs hl
    exact net_lt_of_tight hpriced (fun q hq => (hsent q hq).2) htight hs hl
  · obtain ⟨net, hnet, hge, -⟩ := hmeets
    exact ⟨net, hnet, hge, fun q hq => excess_lt_of_tight hpriced htight hnet hq⟩

/-- Proofs that are worth 1, 3 and 7 after their fees. -/
def twoFourEight : List Proof :=
  [2, 4, 8].map fun amount => ⟨.str "00", amount, .null, .null, none, .null, none⟩

/-- For a target of 9 there is a selection; it may pass the target, but by less than any of
its proofs brings. -/
theorem select_minimal_twoFourEight : ∃ found,
    ((select costly.1 .standard ⟨9, true, false⟩ twoFourEight).run (World.handle .secp256k1)
        (.fresh none (.fresh []))).1 = .ok found ∧ found.send ≠ [] ∧
      (∀ qs : List Proof, qs.Subperm found.send → qs.length < found.send.length →
        ∃ net, netAmount costly.1 true qs = .ok net ∧ net < 9) ∧
      ∃ net, netAmount costly.1 true found.send = .ok net ∧ 9 ≤ net ∧
        ∀ q ∈ found.send, net - 9 < q.amount ∧
          (net - 9) * 1000 < margin costly.1 ⟨9, true, false⟩ q := by
  have hp : Priced costly.1 twoFourEight := by decide
  have ha : ∀ q ∈ twoFourEight, 1 ≤ q.amount := by decide
  have hm : 0 < (9 : Int) → Limits.standard.Bounded 9 :=
    fun _ => ⟨9.0, 9, by decide +kernel, by decide +kernel⟩
  -- the last two are worth 10 together
  have hcov : Coverable costly.1 ⟨9, true, false⟩ twoFourEight :=
    ⟨twoFourEight.drop 1, (List.drop_sublist 1 _).subperm, 10, by decide +kernel, by decide⟩
  obtain ⟨found, hf, h⟩ : ∃ found, ((select costly.1 .standard ⟨9, true, false⟩ twoFourEight).run
      (World.handle .secp256k1) (.fresh none (.fresh []))).1 = .ok found ∧ _ :=
    (select_reaches hp rfl (by decide) hm).run fun _ _ => trivial
  have hne := h (by decide) hcov
  exact ⟨found, hf, hne, select_minimal (World.handle .secp256k1) (.fresh none (.fresh [])) costly.1
    .standard ⟨9, true, false⟩ twoFourEight found hp ha hf hne⟩

end Ecash.Selection
