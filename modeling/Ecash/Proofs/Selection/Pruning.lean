import Ecash.Proofs.Selection.Coverage

/-!
# What an exact selection leaves out before it starts

An exact selection only tries candidates whose own worth does not pass the goal
(`candidates_exact`). Proofs that together hit the target are all among them, so the
selection goes on to try (`select_exact_tries`), with one exception: a proof may hit the
target alone while its worth, which is not rounded, passes the goal. That is so where its
fee is not a whole number of units; such a proof is left out though it is an exact match
(`select_exact_passes_over`).
-/
namespace Ecash.Selection

open Program

variable {chain : KeyChain} {proofs qs : List Proof} {r : Request} {q : Proof}

/-! ## Who is left -/

/-- Cutting an ascending list at a limit keeps all within the limit. -/
theorem takeWhile_le_eq_filter {cs : List Candidate} {limit : Int}
    (h : cs.Pairwise fun a b => r.worth a ≤ r.worth b) :
    cs.takeWhile (r.worth · ≤ limit) = cs.filter (r.worth · ≤ limit) := by
  induction cs with
  | nil => rfl
  | cons c cs ih =>
    obtain ⟨hleast, h⟩ := List.pairwise_cons.mp h
    by_cases hc : r.worth c ≤ limit
    · rw [List.takeWhile_cons_of_pos (by simpa using hc), List.filter_cons_of_pos (by simpa using hc),
        ih h]
    · have hnone : cs.filter (r.worth · ≤ limit) = [] := by
        rw [List.filter_eq_nil_iff]
        intro d hd
        have := hleast d hd
        simp only [decide_eq_true_eq]
        omega
      rw [List.takeWhile_cons_of_neg (by simpa using hc), List.filter_cons_of_neg (by simpa using hc),
        hnone]

/-- For an exact match those are left whose worth does not pass the goal. -/
theorem candidates_exact (hx : r.exact = true) (os : List Candidate) :
    (candidates r os).Perm ((worthwhile r os).filter (r.worth · ≤ r.goal)) := by
  unfold candidates prune
  rw [if_pos hx, takeWhile_le_eq_filter (ascending_pairwise r _)]
  exact (ascending_perm r _).filter _

/-- Proofs that are worth something, none of them more than the goal, all stay candidates. -/
theorem candidates_of_within (hp : Priced chain proofs) (hx : r.exact = true)
    (hs : qs.Subperm proofs) (hpos : ∀ q ∈ qs, 0 < margin chain r q)
    (hle : ∀ q ∈ qs, margin chain r q ≤ r.goal) :
    ∃ os ds : List Candidate, offers chain proofs = .ok os ∧ ds.Subperm (candidates r os) ∧
      (arranged proofs (ds.map Candidate.index)).Perm qs := by
  obtain ⟨ps, hperm, hsub⟩ := hs
  -- the same proofs with their places
  obtain ⟨placed, hplaced, rfl⟩ : ∃ placed : List (Proof × Nat),
      placed.Sublist proofs.zipIdx ∧ ps = placed.map Prod.fst := by
    rw [← List.zipIdx_map_fst 0 proofs] at hsub
    exact List.sublist_map_iff.mp hsub
  have hmargin : ∀ c ∈ placed.map (offer chain), 0 < r.worth c ∧ r.worth c ≤ r.goal := by
    intro c hc
    obtain ⟨x, hx, rfl⟩ := List.mem_map.mp hc
    have hm : x.1 ∈ qs := hperm.subset (List.mem_map_of_mem hx)
    exact ⟨hpos _ hm, hle _ hm⟩
  refine ⟨_, placed.map (offer chain), offers_total hp, ?_, ?_⟩
  · have hoffered : (placed.map (offer chain)).Sublist (proofs.zipIdx.map (offer chain)) :=
      hplaced.map _
    have hworth : (placed.map (offer chain)).Sublist
        (worthwhile r (proofs.zipIdx.map (offer chain))) := by
      unfold worthwhile
      split
      · have h := hoffered.filter (0 < r.worth ·)
        rwa [List.filter_eq_self.mpr fun c hc => by simpa using (hmargin c hc).1] at h
      · exact hoffered
    have hgoal := hworth.filter (r.worth · ≤ r.goal)
    rw [List.filter_eq_self.mpr fun c hc => by simpa using (hmargin c hc).2] at hgoal
    exact hgoal.subperm.trans (candidates_exact hx _).symm.subperm
  · have hentries : arranged proofs (placed.map Prod.snd) = placed.map Prod.fst :=
      arranged_of_entries fun x hx => List.mem_zipIdx_iff_getElem?.mp (hplaced.subset hx)
    rw [List.map_map]
    exact (List.Perm.of_eq hentries).trans hperm

/-! ## What they are worth -/

/-- What proofs are worth together does not depend on their order. -/
theorem netAmount_perm {ps : List Proof} (hp : Priced chain qs) (h : ps.Perm qs) :
    netAmount chain r.includeFees ps = netAmount chain r.includeFees qs := by
  obtain ⟨m, hm, hm'⟩ := netAmount_margins (r := r) hp
  obtain ⟨n, hn, hn'⟩ := netAmount_margins (r := r) fun q hq => hp q (h.subset hq)
  have hiff (k : Int) : k ≤ n ↔ k ≤ m := by rw [hn', hm', (h.map _).sum_eq]
  have hle : n ≤ m := (hiff n).mp (le_refl n)
  have hge : m ≤ n := (hiff m).mpr (le_refl m)
  rw [hn, hm, le_antisymm hle hge]

/-- Candidates that cost nothing to add are worth together at least what some of them are. -/
theorem net_le_of_subperm {cs ds : List Candidate} (hw : ∀ c ∈ cs, 0 ≤ r.worth c)
    (h : ds.Subperm cs) : r.net (.of ds) ≤ r.net (.of cs) := by
  obtain ⟨es, hperm, hsub⟩ := h
  have hle : (es.map r.worth).sum ≤ (cs.map r.worth).sum := by
    refine (hsub.map r.worth).sum_le_sum ?_
    intro w hmem
    obtain ⟨c, hc, rfl⟩ := List.mem_map.mp hmem
    exact hw c hc
  have hds := Request.le_net_iff.mp (le_refl (r.net (.of ds)))
  rw [Request.weight_of, ← (hperm.map _).sum_eq] at hds
  rw [Request.le_net_iff, Request.weight_of]
  omega

/-- Where they hit the target, so do their candidates, and all candidates together reach it. -/
theorem candidates_hit (hp : Priced chain proofs) (hx : r.exact = true) (hs : qs.Subperm proofs)
    (hpos : ∀ q ∈ qs, 0 < margin chain r q) (hle : ∀ q ∈ qs, margin chain r q ≤ r.goal)
    (hnet : netAmount chain r.includeFees qs = .ok r.target) :
    ∃ os ds : List Candidate, offers chain proofs = .ok os ∧ ds.Subperm (candidates r os) ∧
      (arranged proofs (ds.map Candidate.index)).Perm qs ∧ r.net (.of ds) = r.target ∧
      r.target ≤ r.net (.of (candidates r os)) := by
  obtain ⟨os, ds, ho, hds, hperm⟩ := candidates_of_within hp hx hs hpos hle
  have hoffered := (offers_spec ho).2
  have hdsnet : r.net (.of ds) = r.target := by
    have h := netAmount_arranged (r := r) fun c hc =>
      hoffered c ((candidates_subperm r os).subset (hds.subset hc))
    rw [netAmount_perm (fun q hq => hp q (hs.subset hq)) hperm, hnet] at h
    exact (Except.ok.inj h).symm
  have hreach : r.net (.of ds) ≤ r.net (.of (candidates r os)) :=
    net_le_of_subperm (fun c hc => (worthwhile_candidates hp hoffered).worth_nonneg hc) hds
  exact ⟨os, ds, ho, hds, hperm, hdsnet, hdsnet ▸ hreach⟩

/-- Of proofs that hit the target one that passes the goal hits it alone: its fee is not a
whole number of units, and is rounded up. -/
theorem alone_of_beyond (hp : Priced chain qs) (hpos : ∀ q ∈ qs, 0 < margin chain r q)
    (hnet : netAmount chain r.includeFees qs = .ok r.target) (hq : q ∈ qs)
    (hgt : r.goal < margin chain r q) :
    netAmount chain r.includeFees [q] = .ok r.target ∧ r.includeFees = true ∧
      ¬ 1000 ∣ rate chain q := by
  have hpriced : Priced chain [q] := by
    intro p h
    rw [List.mem_singleton.mp h]
    exact hp q hq
  obtain ⟨m, hm, hm'⟩ := netAmount_margins (r := r) hpriced
  have hle : margin chain r q ≤ (qs.map (margin chain r)).sum := by
    refine List.single_le_sum ?_ _ (List.mem_map_of_mem hq)
    intro x hx
    obtain ⟨p, hmem, rfl⟩ := List.mem_map.mp hx
    exact (hpos p hmem).le
  have hlt : margin chain r q < (r.target + 1) * 1000 := by
    have hnot := le_netAmount_iff (n := r.target + 1) hp hnet
    omega
  have hone (k : Int) : k ≤ m ↔ k * 1000 ≤ margin chain r q := by simpa using hm' k
  have hlow := hone r.target
  have hhigh := hone (r.target + 1)
  unfold Request.goal at hgt
  refine ⟨?_, ?_⟩
  · rw [hm, show m = r.target by omega]
  · unfold margin Request.worth at hgt hlt
    dsimp only at hgt hlt
    cases hf : r.includeFees with
    | false =>
      rw [hf, if_neg (by decide)] at hgt hlt
      omega
    | true =>
      rw [hf, if_pos rfl] at hgt hlt
      exact ⟨rfl, by omega⟩

/-! ## Going on -/

variable {l : Limits} {os : List Candidate}

theorem error_of_most {available : Int} {e : Failure} (h : l.most r.target available = .error e) :
    e = .tooLarge := by
  unfold Limits.most at h
  split at h
  · cases h
    rfl
  split at h
  · cases h
    rfl
  · cases h

/-- Where the candidates reach the target, a selection that draws nothing has failed: the
most that may be paid was not a number. -/
theorem select_tries (hn : 0 < l.trials) (ht : 0 < r.target) (ho : offers chain proofs = .ok os)
    (ha : r.target ≤ r.net (.of (candidates r os))) :
    (select chain l r proofs).Ends (fun x => x.command ≠ .shuffle (candidates r os).length)
      (· = .error .tooLarge) := by
  obtain ⟨n, hn⟩ := Nat.exists_eq_succ_of_ne_zero hn.ne'
  have hchoose : (choose chain l r proofs).Ends
      (fun x => x.command ≠ .shuffle (candidates r os).length) (· = .error .tooLarge) := by
    unfold choose
    refine achieves_asked.ends_bind fun started _ => (achieves_lift ho rfl).ends_bind ?_
    rintro _ rfl
    dsimp only
    rw [if_neg (by omega)]
    refine Ends.bind ?_
    cases hm : l.most r.target (r.net (.of (candidates r os))) with
    | error e => exact congrArg _ (error_of_most hm)
    | ok most =>
      -- a trial begins with drawing an order of the candidates
      rw [hn]
      exact fun _ h => absurd rfl h
  unfold select
  refine Ends.bind (Ends.attempt (Ends.mono hchoose ?_))
  rintro _ rfl
  exact achieves_asked.ends_bind fun _ _ => rfl

/-- Some of the proofs, each worth something, hit the target exactly. Then either the same
proofs are still candidates, and the selection goes on to draw among them (or fails, for a
target too large to calculate with), or one of them hits the target alone, by a fee that is
rounded up. -/
theorem select_exact_tries {σ : Type} (handle : (c : Command) → σ → c.Answer × σ) (s : σ)
    (chain : KeyChain) (l : Limits) (r : Request) (proofs qs : List Proof) (hp : Priced chain proofs)
    (hx : r.exact = true) (ht : 0 < r.target) (hn : 0 < l.trials) (hs : qs.Subperm proofs)
    (hpos : ∀ q ∈ qs, 0 < margin chain r q)
    (hnet : netAmount chain r.includeFees qs = .ok r.target) :
    (∃ os ds : List Candidate, offers chain proofs = .ok os ∧ ds.Subperm (candidates r os) ∧
        (arranged proofs (ds.map Candidate.index)).Perm qs ∧ r.net (.of ds) = r.target ∧
        ((∃ x ∈ (select chain l r proofs).history handle s,
            x.command = .shuffle (candidates r os).length) ∨
          ((select chain l r proofs).run handle s).1 = .error .tooLarge)) ∨
      ∃ q ∈ qs, netAmount chain r.includeFees [q] = .ok r.target ∧ r.goal < margin chain r q ∧
        r.includeFees = true ∧ ¬ 1000 ∣ rate chain q := by
  by_cases hgt : ∃ q ∈ qs, r.goal < margin chain r q
  · right
    obtain ⟨q, hmem, hgt⟩ := hgt
    have hpriced : Priced chain qs := fun q hq => hp q (hs.subset hq)
    obtain ⟨halone, hfee, hrate⟩ := alone_of_beyond hpriced hpos hnet hmem hgt
    exact ⟨q, hmem, halone, hgt, hfee, hrate⟩
  · left
    have hle : ∀ q ∈ qs, margin chain r q ≤ r.goal := fun q hq =>
      not_lt.mp fun h => hgt ⟨q, hq, h⟩
    obtain ⟨os, ds, ho, hds, hperm, hdsnet, hreach⟩ := candidates_hit hp hx hs hpos hle hnet
    refine ⟨os, ds, ho, hds, hperm, hdsnet, ?_⟩
    by_cases hdrawn : ∃ x ∈ (select chain l r proofs).history handle s,
        x.command = .shuffle (candidates r os).length
    · exact .inl hdrawn
    · right
      refine (select_tries hn ht ho hreach).run ?_
      intro x hmem hc
      exact hdrawn ⟨x, hmem, hc⟩

/-- One proof of 2 and one of 4, of keysets that charge half a unit and a whole one. -/
def halves : KeyChain × List Proof :=
  let half : Keyset := ⟨.str "00", .str "sat", .bool true, 500, .null, []⟩
  let whole : Keyset := ⟨.str "01", .str "sat", .bool true, 1000, .null, []⟩
  (⟨.str "sat", [half, whole]⟩,
    [(half, 2), (whole, 4)].map fun (k, amount) => ⟨k.id, amount, .null, .null, none, .null, none⟩)

/-- Both together hit a target of 4, and are drawn among. -/
theorem select_exact_tries_halves :
    ∃ os ds : List Candidate, offers halves.1 halves.2 = .ok os ∧
      ds.Subperm (candidates ⟨4, true, true⟩ os) ∧
      (arranged halves.2 (ds.map Candidate.index)).Perm halves.2 ∧
      Request.net ⟨4, true, true⟩ (.of ds) = 4 ∧
      ((∃ x ∈ (select halves.1 .standard ⟨4, true, true⟩ halves.2).history (World.handle .secp256k1)
          (.fresh none (.fresh [])), x.command = .shuffle (candidates ⟨4, true, true⟩ os).length) ∨
        ((select halves.1 .standard ⟨4, true, true⟩ halves.2).run (World.handle .secp256k1)
          (.fresh none (.fresh []))).1 = .error .tooLarge) := by
  have hp : Priced halves.1 halves.2 := by decide
  refine (select_exact_tries (World.handle .secp256k1) (.fresh none (.fresh [])) halves.1 .standard
    ⟨4, true, true⟩ halves.2 halves.2 hp rfl (by decide) (by decide) (List.Subperm.refl _)
    (by decide) (by decide +kernel)).resolve_right ?_
  -- neither passes the goal
  rintro ⟨q, hq, -, hgt, -⟩
  revert q
  decide

/-- The first alone is worth 1 after its fee of half a unit, which is rounded up. An exact
selection of 1 leaves it out and finds nothing, where a close one sends it. -/
theorem select_exact_passes_over :
    (∀ q ∈ halves.2.take 1, 0 < margin halves.1 ⟨1, true, true⟩ q) ∧
      netAmount halves.1 true (halves.2.take 1) = .ok 1 ∧
      (offers halves.1 (halves.2.take 1)).map (candidates ⟨1, true, true⟩) = .ok [] ∧
      ((select halves.1 .standard ⟨1, true, true⟩ (halves.2.take 1)).run (World.handle .secp256k1)
        (.fresh none (.fresh []))).1 = .ok ⟨halves.2.take 1, []⟩ ∧
      ((select halves.1 .standard ⟨1, true, false⟩ (halves.2.take 1)).run (World.handle .secp256k1)
        (.fresh none (.fresh []))).1 = .ok ⟨[], halves.2.take 1⟩ := by
  decide +kernel

end Ecash.Selection
