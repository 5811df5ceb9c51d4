import Ecash.Proofs.Selection.Coverage
import Ecash.Proofs.Selection.Trials

/-!
# A close selection may be stopped at any time

What a close selection ends with follows from the number of its trials (`select_tried`).
So a run that was stopped after some ends as a run that is given as many and has the time
for them, and none ends worse than one that made fewer trials from the same orders
(`select_anytime`): a better subset is only ever replaced by one with a smaller excess
(`bestAfter_mono`), and the excess that the search keeps is that of the proofs it sends
(`excess_chosen`).
-/
namespace Ecash.Selection

open Program

/-! ## More time -/

section Time

variable {σ α β : Type} {handle : (c : Command) → σ → c.Answer × σ} {chain : KeyChain} {l : Limits}
  {r : Request} {proofs : List Proof} {most : Int} {cs : List Candidate} {started : Float}

/-- A program that draws nothing adds no trials, whether it is reached or not. -/
theorem drawn_bind {p : Program α} {f : α → Program β}
    (hf : ∀ a s, drawn ((f a).history handle s) = 0) (s : σ) :
    drawn ((p >>= f).history handle s) = drawn (p.history handle s) := by
  change drawn ((p.andThen f).history handle s) = _
  induction p generalizing s with
  | done o =>
    cases o with
    | ok a => exact hf a s
    | error e => rfl
  | ask c next ih =>
    simp only [andThen, history, drawn, List.countP_cons]
    exact congrArg (· + _) (ih _ _)

theorem drawn_attempt (p : Program α) (s : σ) :
    drawn (p.attempt.history handle s) = drawn (p.history handle s) :=
  congrArg drawn (run_attempt p s).2

theorem drawn_conclude (best : Option Best) (s : σ) :
    drawn ((conclude proofs best).history handle s) = 0 := by
  cases best <;> rfl

/-- What is over time still is with less of it. -/
theorem Limits.overtime_of_le {l' : Limits} (h : l.milliseconds ≤ l'.milliseconds) {now : Float}
    (ho : l'.overtime started now = true) : l.overtime started now = true := by
  unfold Limits.overtime Decimal.exceeds at ho ⊢
  split at ho
  · simp only [decide_eq_true_eq] at ho ⊢
    omega
  · exact ho

/-- With more trials to make and more time for them, no fewer are made. -/
theorem drawn_search_le {n m k ms : Nat} (hnm : n ≤ m) (hms : l.milliseconds ≤ ms)
    (hc : r.exact = false) (best : Option Best) (s : σ) :
    drawn ((search r l most cs started n best).history handle s) ≤
      drawn ((search r (l.budget k ms) most cs started m best).history handle s) := by
  induction n generalizing m best s with
  | zero => exact Nat.zero_le _
  | succ n ih =>
    obtain ⟨m, rfl⟩ := Nat.exists_eq_add_of_le' hnm
    -- both make the same trial from the same world, and go on from the one it leaves
    obtain ⟨t, ht⟩ : ∃ t, ((trial r l most cs).run handle s).1 = .ok t := ⟨_, rfl⟩
    have hsame : trial r (l.budget k ms) most cs = trial r l most cs := rfl
    rw [← Nat.add_assoc, search, search, hsame, history_bind_ok ht, history_bind_ok ht,
      drawn_append, drawn_append]
    refine Nat.add_le_add_left ?_ _
    dsimp only
    split
    · exact le_refl _
    · change drawn (history handle (ite _ _ _) _) ≤ drawn (history handle (ite _ _ _) _)
      split
      · rw [hc]
        exact Nat.zero_le _
      · rename_i ho
        have ho' : ¬(l.budget k ms).overtime started (handle .now _).1 = true :=
          mt (Limits.overtime_of_le hms) ho
        rw [if_neg ho']
        exact ih (by omega) _ _

/-- In the same world a selection with a larger budget makes no fewer trials. -/
theorem trialsIn_select_le {n ms : Nat} (hn : l.trials ≤ n) (hms : l.milliseconds ≤ ms)
    (hc : r.exact = false) (s : σ) :
    trialsIn ((select chain l r proofs).history handle s) ≤
      trialsIn ((select chain (l.budget n ms) r proofs).history handle s) := by
  refine Nat.div_le_div_right ?_
  rw [select, select, drawn_bind fun _ _ => rfl, drawn_bind fun _ _ => rfl, drawn_attempt,
    drawn_attempt, choose_eq, choose_eq]
  have hsame : prepare chain (l.budget n ms) r proofs = prepare chain l r proofs := rfl
  rw [hsame]
  obtain e | _ | ⟨cs, most⟩ := prepare chain l r proofs
  · exact le_refl _
  · exact le_refl _
  · change drawn ((search r l most cs (handle .now s).1 l.trials none >>= conclude proofs).history
        handle (handle .now s).2) ≤ drawn ((search r (l.budget n ms) most cs (handle .now s).1 n
          none >>= conclude proofs).history handle (handle .now s).2)
    rw [drawn_bind drawn_conclude, drawn_bind drawn_conclude]
    exact drawn_search_le hn hms hc none _

end Time

/-! ## Changes for the better -/

section Better

variable {ρ : Type} {draw : (n : Nat) → ρ → Shuffle n × ρ} {chain : KeyChain} {l : Limits}
  {r : Request} {proofs : List Proof} {exchanges : Nat} {most : Int} {cs : List Candidate}

/-- Where there was a subset there is one, with no larger excess. -/
def NoWorse (best' best : Option Best) : Prop := ∀ b ∈ best, ∃ b' ∈ best', b'.excess ≤ b.excess

theorem NoWorse.refl (best : Option Best) : NoWorse best best := fun b hb => ⟨b, hb, le_refl _⟩

theorem NoWorse.trans {a b c : Option Best} (h : NoWorse a b) (h' : NoWorse b c) : NoWorse a c := by
  intro z hz
  obtain ⟨y, hy, hyz⟩ := h' z hz
  obtain ⟨x, hx, hxy⟩ := h y hy
  exact ⟨x, hx, hxy.trans hyz⟩

theorem trim_excess_le (r : Request) (rest : List Candidate) (t : Totals) (best : Best) :
    (trim r rest t best).excess ≤ best.excess := by
  fun_induction trim r rest t best with
  | case1 c d rest t best hx => exact le_refl _
  | case2 c d rest t best hx t' he => exact le_refl _
  | case3 c d rest t best hx t' e he hlt ih => exact ih.trans hlt.le
  | case4 c d rest t best hx t' e he hge ih => exact ih
  | case5 => exact le_refl _
  | case6 => exact le_refl _

theorem improve_noWorse (s : Trial) (best : Option Best) : NoWorse (s.improve r best) best := by
  unfold Trial.improve
  split
  · exact .refl best
  · rename_i e he
    split
    · rename_i hb
      rintro b rfl
      have hlt : e < b.excess := by simpa using hb
      exact ⟨_, rfl, (trim_excess_le r _ _ _).trans hlt.le⟩
    · exact .refl best

/-- What no trial takes away from the best subset holds after any number of them. -/
theorem bestAfter_induct {P : Option Best → Prop}
    (step : ∀ x best, P best → P ((trialFrom draw r exchanges most cs x).1.improve r best)) (n : Nat)
    (x : ρ) {best : Option Best} (hb : P best) : P (bestAfter draw r exchanges most cs n x best) := by
  induction n generalizing x best with
  | zero => exact hb
  | succ n ih =>
    have hnext := step x best hb
    rw [bestAfter]
    dsimp only
    split
    · exact hnext
    · exact ih _ hnext

theorem bestAfter_noWorse (n : Nat) (x : ρ) (best : Option Best) :
    NoWorse (bestAfter draw r exchanges most cs n x best) best :=
  bestAfter_induct (fun _ best' h => (improve_noWorse _ best').trans h) n x (.refl best)

/-- Further trials take nothing away from what was found. -/
theorem bestAfter_mono {n m : Nat} (h : n ≤ m) (x : ρ) (best : Option Best) :
    NoWorse (bestAfter draw r exchanges most cs m x best)
      (bestAfter draw r exchanges most cs n x best) := by
  induction n generalizing m x best with
  | zero => exact bestAfter_noWorse m x best
  | succ n ih =>
    obtain ⟨m, rfl⟩ := Nat.exists_eq_add_of_le' h
    rw [← Nat.add_assoc, bestAfter, bestAfter]
    dsimp only
    split
    · exact .refl _
    · exact ih (by omega) _ _

theorem bestAfter_inv (hn : cs.Nodup) (hw : Worthwhile r cs) (ht : 0 < r.target) (n : Nat) (x : ρ) :
    BestInv r cs (bestAfter draw r exchanges most cs n x none) := by
  refine bestAfter_induct (fun x best hb => ?_) n x (by simp [BestInv])
  have htrial : (trialFrom draw r exchanges most cs x).1.Inv cs ∧
      Within r (trialFrom draw r exchanges most cs x).1.totals := inv_exchanges hn ht _ most _
  exact hb.improve hw htrial.1 htrial.2

/-- One trial finds something where the candidates reach the target together. -/
theorem bestAfter_isSome (hc : r.exact = false) (h : r.target ≤ r.net (.of cs)) {n : Nat} (hn : 0 < n)
    (x : ρ) (best : Option Best) : (bestAfter draw r exchanges most cs n x best).isSome := by
  obtain ⟨n, rfl⟩ := Nat.exists_eq_add_of_le' hn
  rw [bestAfter]
  have hreach : r.target ≤ r.net (trialFrom draw r exchanges most cs x).1.totals :=
    exchanges_reach hc h _ most _
  have hstep := improve_reaches hreach best
  dsimp only
  split
  · exact hstep
  · obtain ⟨b, hb⟩ := Option.isSome_iff_exists.mp hstep
    obtain ⟨b', hb', -⟩ := bestAfter_noWorse n _ _ b hb
    exact Option.isSome_iff_exists.mpr ⟨b', hb'⟩

/-! ## The excess of a selection -/

/-- How far proofs pass the target, in thousandths, and the sum of their rates. -/
def excess (chain : KeyChain) (r : Request) (qs : List Proof) : Int :=
  (Proof.total qs - r.target) * 1000 + (qs.map (rate chain)).sum

/-- Where the one outcome is a selection, the other is one with no larger excess. -/
def AsClose (chain : KeyChain) (r : Request) (o' o : Outcome Partition) : Prop :=
  ∀ found, o = .ok found → ∃ found', o' = .ok found' ∧
    excess chain r found'.send ≤ excess chain r found.send

/-- The excess that the search keeps for a subset is that of its proofs. -/
theorem excess_chosen {os : List Candidate} {b : Best} (ho : offers chain proofs = .ok os)
    (hb : b.Inv r (candidates r os)) :
    excess chain r (divide proofs b.chosen).send = b.excess := by
  have hp := List.reverse_perm b.ascending
  have hs := hb.subset.trans (candidates_subperm r os)
  obtain ⟨ha, hf⟩ := arranged_offered fun c hc => (offers_spec ho).2 c (hs.subset (hp.subset hc))
  have hr := Outcome.map_of_mapM_ok (g := id) (h := rate chain)
    (fun q ppk hq => by rw [rate, hq]; rfl) hf
  obtain ⟨-, he⟩ := Request.excess?_eq_some.mp hb.excess
  rw [hb.totals, ← Totals.of_perm hp, Totals.of_eq_sums] at he
  rw [List.map_id] at hr
  change excess chain r (arranged proofs b.chosen) = _
  rw [excess, Proof.total, Best.chosen, ha, ← hr, he]

theorem prepare_inv (h : prepare chain l r proofs = .ok (some (cs, most))) :
    ∃ os, offers chain proofs = .ok os ∧ cs = candidates r os ∧ 0 < r.target ∧
      r.target ≤ r.net (.of cs) := by
  simp only [prepare, Outcome.bind_ok_iff] at h
  obtain ⟨os, ho, h⟩ := h
  split at h
  · cases h
  · obtain ⟨_, -, h⟩ := Outcome.bind_ok_iff.mp h
    cases h
    exact ⟨os, ho, rfl, by omega, by omega⟩

/-- Further trials leave a selection as it is or bring it closer to the target. -/
theorem selectionAfter_mono (hp : Priced chain proofs) (hc : r.exact = false) {n m : Nat}
    (hnm : n ≤ m) (x : ρ)
    (hn : 0 < n ∨ ∀ k, selectionAfter draw chain l r proofs k x =
      selectionAfter draw chain l r proofs n x) :
    AsClose chain r (selectionAfter draw chain l r proofs m x)
      (selectionAfter draw chain l r proofs n x) := by
  intro found h
  obtain hn | hn := hn
  · unfold selectionAfter at h ⊢
    obtain ⟨o, ho, h⟩ := Outcome.bind_ok_iff.mp h
    rw [ho]
    obtain _ | ⟨cs, most⟩ := o
    · exact ⟨found, h, le_refl _⟩
    · cases h
      obtain ⟨os, hos, rfl, ht, hreach⟩ := prepare_inv ho
      have hw := worthwhile_candidates (r := r) hp (offers_spec hos).2
      have hinv k : BestInv r (candidates r os)
          (bestAfter draw r l.exchanges most (candidates r os) k x none) :=
        bestAfter_inv (candidates_nodup hos) hw ht k x
      have hsome : (bestAfter draw r l.exchanges most (candidates r os) n x none).isSome :=
        bestAfter_isSome hc hreach hn x none
      obtain ⟨b, hb⟩ := Option.isSome_iff_exists.mp hsome
      obtain ⟨b', hb', hle⟩ := bestAfter_mono hnm x none b hb
      refine ⟨_, rfl, ?_⟩
      rw [hb, hb', divideBest, divideBest, excess_chosen hos (hinv n b hb),
        excess_chosen hos (hinv m b' hb')]
      exact hle
  · exact ⟨found, (hn m).trans h, le_refl _⟩

end Better

/-! ## Stopping at any time -/

section Runs

variable {σ τ ρ : Type} {draw : (n : Nat) → ρ → Shuffle n × ρ}
  {handle : (c : Command) → σ → c.Answer × σ} {view : σ → ρ}
  {handle' : (c : Command) → τ → c.Answer × τ} {view' : τ → ρ} {s : σ} {s' : τ}
  {chain : KeyChain} {l : Limits} {r : Request} {proofs : List Proof} {n ms : Nat}

/-- Of two close selections with the same orders, the one that makes more trials, or is
given more and the time for them, ends no worse. -/
theorem select_asClose (H : Draws draw handle view) (H' : Draws draw handle' view')
    (hstream : view s = view' s') (hclose : r.exact = false) (hp : Priced chain proofs)
    (hn : 0 < l.trials)
    (hmore : trialsIn ((select chain l r proofs).history handle s) ≤
        trialsIn ((select chain (l.budget n ms) r proofs).history handle' s') ∨
      trialsIn ((select chain l r proofs).history handle s) ≤ n ∧
        Unhurried ((select chain (l.budget n ms) r proofs).history handle' s')) :
    AsClose chain r ((select chain (l.budget n ms) r proofs).run handle' s').1
      ((select chain l r proofs).run handle s).1 := by
  obtain ⟨t, ht, hpos⟩ := select_tried H hclose chain l proofs s
  obtain ⟨t', ht', -⟩ := select_tried H' hclose chain (l.budget n ms) proofs s'
  rw [ht.trialsIn, ht'.trialsIn] at hmore
  rw [ht.run, ht'.run, ← hstream]
  obtain hle | ⟨hle, hcalm⟩ := hmore
  · exact selectionAfter_mono hp hclose hle _ (hpos hn)
  · have hall := ht'.all hcalm
    rw [← hstream] at hall
    rw [hall]
    exact selectionAfter_mono hp hclose hle _ (hpos hn)

/-- One trial is enough to reach a target that some of the proofs reach. -/
theorem select_meets (hclose : r.exact = false) (hp : Priced chain proofs) (hn : 0 < l.trials)
    (ht : 0 < r.target) (hl : l.Bounded r.target) (hcov : Coverable chain r proofs) :
    ∃ found, ((select chain l r proofs).run handle s).1 = .ok found ∧ found.send ≠ [] ∧
      Meets chain r found.send := by
  obtain ⟨found, hf, hfinds⟩ : ∃ found, ((select chain l r proofs).run handle s).1 = .ok found ∧ _ :=
    (select_reaches hp hclose hn fun _ => hl).run fun _ _ => trivial
  have hne := hfinds ht hcov
  obtain rfl | ⟨-, os, b, ho, hb, rfl⟩ := select_cases hp (hf ▸ yields_run handle _ s)
  · exact absurd rfl hne
  · exact ⟨_, hf, hne, (chosen_meets ht ho hb).2.2⟩

end Runs

/-- A close selection that was stopped after some trials, by whatever clock, ends as one that
is given as many and has the time for them. Of two with the same orders the one that makes
more trials, or is given more and the time for them, ends no worse, and so does one with the
larger budget in the same world. Whenever it is stopped, a target that some of the proofs
reach is reached. -/
theorem select_anytime {σ τ ρ : Type} (draw : (n : Nat) → ρ → Shuffle n × ρ)
    (handle : (c : Command) → σ → c.Answer × σ) (view : σ → ρ) (H : Draws draw handle view)
    (handle' : (c : Command) → τ → c.Answer × τ) (view' : τ → ρ) (H' : Draws draw handle' view')
    (s : σ) (s' : τ) (hstream : view s = view' s') (chain : KeyChain) (l : Limits) (r : Request)
    (hclose : r.exact = false) (proofs : List Proof) (n ms : Nat) :
    (trialsIn ((select chain l r proofs).history handle s) = n →
      Unhurried ((select chain (l.budget n ms) r proofs).history handle' s') →
      ((select chain l r proofs).run handle s).1 =
        ((select chain (l.budget n ms) r proofs).run handle' s').1) ∧
    (Priced chain proofs → 0 < l.trials →
      trialsIn ((select chain l r proofs).history handle s) ≤
          trialsIn ((select chain (l.budget n ms) r proofs).history handle' s') ∨
        trialsIn ((select chain l r proofs).history handle s) ≤ n ∧
          Unhurried ((select chain (l.budget n ms) r proofs).history handle' s') →
      AsClose chain r ((select chain (l.budget n ms) r proofs).run handle' s').1
        ((select chain l r proofs).run handle s).1) ∧
    (Priced chain proofs → 0 < l.trials → l.trials ≤ n → l.milliseconds ≤ ms →
      AsClose chain r ((select chain (l.budget n ms) r proofs).run handle s).1
        ((select chain l r proofs).run handle s).1) ∧
    (Priced chain proofs → 0 < l.trials → 0 < r.target → l.Bounded r.target →
      Coverable chain r proofs → ∃ found, ((select chain l r proofs).run handle s).1 = .ok found ∧
        found.send ≠ [] ∧ Meets chain r found.send) := by
  refine ⟨?_, select_asClose H H' hstream hclose, fun hp hn hnm hms =>
    select_asClose H H rfl hclose hp hn (.inl (trialsIn_select_le hnm hms hclose s)),
    select_meets hclose⟩
  rintro rfl hcalm
  obtain ⟨t, ht, -⟩ := select_tried H hclose chain l proofs s
  rw [ht.trialsIn] at hcalm ⊢
  obtain ⟨t', ht', -⟩ := select_tried H' hclose chain (l.budget t ms) proofs s'
  rw [ht.run, ht'.run, ht'.all hcalm, hstream]
  rfl

/-- A world whose clock advances by so many seconds a reading. -/
def paced (seconds : Float) : World := { World.fresh none (.fresh []) with clockStep := seconds }

/-- The proof worth 7 passes the target of 5, so no trial settles the search, and a clock that
advances by two seconds stops it after the first. -/
theorem select_anytime_paced :
    ((select costly.1 .standard ⟨5, true, false⟩ costly.2).run (World.handle .secp256k1)
        (paced 2.0)).1 =
      ((select costly.1 (Limits.standard.budget 1 1000) ⟨5, true, false⟩ costly.2).run
        (World.handle .secp256k1) (paced 0.0)).1 ∧
    AsClose costly.1 ⟨5, true, false⟩
      ((select costly.1 (Limits.standard.budget 4 1000) ⟨5, true, false⟩ costly.2).run
        (World.handle .secp256k1) (paced 0.0)).1
      ((select costly.1 .standard ⟨5, true, false⟩ costly.2).run (World.handle .secp256k1)
        (paced 2.0)).1 ∧
    AsClose costly.1 ⟨5, true, false⟩
      ((select costly.1 (Limits.standard.budget 60 5000) ⟨5, true, false⟩ costly.2).run
        (World.handle .secp256k1) (paced 2.0)).1
      ((select costly.1 .standard ⟨5, true, false⟩ costly.2).run (World.handle .secp256k1)
        (paced 2.0)).1 ∧
    ∃ found, ((select costly.1 .standard ⟨5, true, false⟩ costly.2).run (World.handle .secp256k1)
        (paced 2.0)).1 = .ok found ∧ found.send ≠ [] ∧ Meets costly.1 ⟨5, true, false⟩ found.send := by
  have hp : Priced costly.1 costly.2 := by decide
  have hone : trialsIn ((select costly.1 .standard ⟨5, true, false⟩ costly.2).history
      (World.handle .secp256k1) (paced 2.0)) = 1 := by decide +kernel
  have hcalm (n : Nat) (hn : n = 1 ∨ n = 4) : Unhurried ((select costly.1
      (Limits.standard.budget n 1000) ⟨5, true, false⟩ costly.2).history (World.handle .secp256k1)
        (paced 0.0)) := by
    obtain rfl | rfl := hn <;> decide +kernel
  have hl : Limits.standard.Bounded 5 := ⟨5.0, 5, by decide +kernel, by decide +kernel⟩
  have hcov : Coverable costly.1 ⟨5, true, false⟩ costly.2 :=
    ⟨costly.2.drop 1, (List.drop_sublist 1 costly.2).subperm, 7, by decide +kernel, by decide⟩
  have h (n ms : Nat) := select_anytime _ (World.handle .secp256k1) World.shuffler (draws_world _)
    (World.handle .secp256k1) World.shuffler (draws_world _) (paced 2.0) (paced 0.0) rfl costly.1
    .standard ⟨5, true, false⟩ rfl costly.2 n ms
  refine ⟨(h 1 1000).1 hone (hcalm 1 (.inl rfl)), (h 4 1000).2.1 hp (by decide) (.inr ⟨?_, ?_⟩),
    (h 60 5000).2.2.1 hp (by decide) (by decide) (by decide),
    (h 1 1000).2.2.2 hp (by decide) (by decide) hl hcov⟩
  · rw [hone]
    decide
  · exact hcalm 4 (.inr rfl)

end Ecash.Selection
