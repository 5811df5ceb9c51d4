import Ecash.Proofs.Outcome
import Ecash.Proofs.Program.Run
import Ecash.Proofs.Selection.Trial
import Ecash.Selection.Search
import Ecash.World

/-!
# A selection is sound

Whatever order, time and bounds a selection meets: it keeps everything, or it
divides the proofs by position so that those to send are worth at least the
target, net of their own fee if that is asked for (`select_sound`). The
candidates of a selection stand for positions in the list of proofs (`Offered`),
the search keeps `BestInv`, and `divide` turns the chosen positions into a
division.
-/
namespace Ecash.Selection

open Program

/-- No two proofs of the list are the very same one. -/
def Distinct (proofs : List Proof) : Prop := proofs.Pairwise fun p q => p.isSame q = false

instance (proofs : List Proof) : Decidable (Distinct proofs) :=
  inferInstanceAs (Decidable (proofs.Pairwise _))

/-- Proofs of no negative amount, in known keysets of no negative rate. -/
def Priced (chain : KeyChain) (proofs : List Proof) : Prop :=
  ∀ q ∈ proofs, 0 ≤ q.amount ∧ ∃ ppk, Fee.proofPpk chain q = .ok ppk ∧ 0 ≤ ppk

instance (chain : KeyChain) (proofs : List Proof) : Decidable (Priced chain proofs) :=
  decidable_of_iff (∀ q ∈ proofs, 0 ≤ q.amount ∧ ∃ ppk ∈ (Fee.proofPpk chain q).toOption, 0 ≤ ppk) <| by
    unfold Priced
    simp only [Option.mem_def, Outcome.toOption_eq_some_iff]

/-- What proofs are worth: their total, and with fees less what the mint charges
for spending them together. -/
def netAmount (chain : KeyChain) (includeFees : Bool) (proofs : List Proof) : Outcome Int := do
  let fee ← Fee.charge chain proofs
  return Proof.total proofs - if includeFees then fee else 0

variable {chain : KeyChain} {proofs : List Proof} {r : Request}

/-! ## Candidates -/

/-- The candidate stands for the proof at its place. -/
def Offered (chain : KeyChain) (proofs : List Proof) (c : Candidate) : Prop :=
  ∃ q, proofs[c.index]? = some q ∧ c.amount = q.amount ∧ Fee.proofPpk chain q = .ok c.feePpk

theorem offers_spec {os : List Candidate} (h : offers chain proofs = .ok os) :
    os.map Candidate.index = List.range proofs.length ∧ ∀ c ∈ os, Offered chain proofs c := by
  have step (q : Proof) (i : Nat) (c : Candidate)
      (hx : (do return ⟨i, q.amount, ← Fee.proofPpk chain q⟩ : Outcome Candidate) = .ok c) :
      c.index = i ∧ c.amount = q.amount ∧ Fee.proofPpk chain q = .ok c.feePpk := by
    obtain ⟨ppk, hp, hc⟩ := Outcome.bind_ok_iff.mp hx
    cases hc
    exact ⟨rfl, rfl, hp⟩
  constructor
  · have hi := Outcome.map_of_mapM_ok (g := Candidate.index) (h := Prod.snd)
      (fun ⟨q, i⟩ c hx => (step q i c hx).1) h
    rw [hi, List.zipIdx_map_snd, List.range_eq_range']
  · intro c hc
    obtain ⟨⟨q, i⟩, hx, hq⟩ := Outcome.mem_of_mapM_ok hc h
    obtain ⟨rfl, h₂, h₃⟩ := step q i c hq
    exact ⟨q, List.mem_zipIdx_iff_getElem?.mp hx, h₂, h₃⟩

theorem candidates_subperm_worthwhile (r : Request) (os : List Candidate) :
    (candidates r os).Subperm (worthwhile r os) := by
  have hp (as : List Candidate) : (prune r as).Sublist as := by
    unfold prune
    split
    · exact List.takeWhile_sublist _
    · split
      · exact List.Sublist.refl _
      · exact List.takeWhile_sublist _
  exact (hp _).subperm.trans (ascending_perm r _).subperm

theorem candidates_subperm (r : Request) (os : List Candidate) : (candidates r os).Subperm os := by
  refine (candidates_subperm_worthwhile r os).trans (List.Sublist.subperm ?_)
  unfold worthwhile
  split
  · exact List.filter_sublist
  · exact List.Sublist.refl _

theorem candidates_nodup {os : List Candidate} (h : offers chain proofs = .ok os) :
    (candidates r os).Nodup := by
  have hn : os.Nodup := .of_map Candidate.index ((offers_spec h).1 ▸ List.nodup_range)
  obtain ⟨l, hl, hs⟩ := candidates_subperm r os
  exact hl.nodup_iff.mp (hn.sublist hs)

theorem worthwhile_candidates {os : List Candidate} (hp : Priced chain proofs)
    (ho : ∀ c ∈ os, Offered chain proofs c) : Worthwhile r (candidates r os) := by
  intro c hc
  obtain ⟨q, hq, ha, hf⟩ := ho c ((candidates_subperm r os).subset hc)
  obtain ⟨h₁, ppk, h₂, h₃⟩ := hp q (List.mem_of_getElem? hq)
  rw [hf] at h₂
  cases h₂
  refine ⟨ha ▸ h₁, h₃, fun hi => ?_⟩
  have hw := (candidates_subperm_worthwhile r os).subset hc
  rw [worthwhile, if_pos hi, List.mem_filter, decide_eq_true_eq] at hw
  exact hw.2.le

/-! ## Searching -/

theorem inv_exchanges {cs : List Candidate} (hn : cs.Nodup) (ht : 0 < r.target)
    (order : Shuffle cs.length) (most : Int) (is : List Nat) :
    ((Trial.start r cs order).exchanges r most is).Inv cs ∧
      Within r ((Trial.start r cs order).exchanges r most is).totals := by
  refine exchanges_induct (P := fun s => s.Inv cs ∧ Within r s.totals) ?_ ?_ most _
  · exact ⟨inv_start r hn order, within_start ht order⟩
  · exact fun s i hs => ⟨hs.1.exchange r i, hs.2.exchange i⟩

theorem trial_inv {cs : List Candidate} (hn : cs.Nodup) (ht : 0 < r.target) {l : Limits}
    {most : Int} {tr : List Exchange} {s : Trial} (h : (trial r l most cs).Yields tr (.ok s)) :
    s.Inv cs ∧ Within r s.totals := by
  simp only [trial, yields_bind_ok, yields_pure_ok] at h
  obtain ⟨order, _, _, -, -, is, _, _, -, -, -, rfl⟩ := h
  exact inv_exchanges hn ht order most _

/-- What no trial takes away from the best subset so far holds of what a search ends
with. -/
theorem search_induct {P : Option Best → Prop} {cs : List Candidate} (hn : cs.Nodup)
    (ht : 0 < r.target)
    (hstep : ∀ (s : Trial) best, s.Inv cs → Within r s.totals → P best → P (s.improve r best)) {l : Limits}
    {most : Int} {started : Float} {n : Nat} {best found : Option Best} {tr : List Exchange}
    (hb : P best) (h : (search r l most cs started n best).Yields tr (.ok found)) : P found := by
  induction n generalizing best tr with
  | zero =>
    simp only [search, yields_pure_ok] at h
    rwa [h.2]
  | succ n ih =>
    simp only [search, yields_bind_ok] at h
    obtain ⟨s, _, _, -, hs, h⟩ := h
    obtain ⟨h₁, h₂⟩ := trial_inv hn ht hs
    have hb := hstep s best h₁ h₂ hb
    split at h
    · rw [(yields_pure_ok.mp h).2]
      exact hb
    · obtain ⟨now, _, _, -, -, h⟩ := yields_bind_ok.mp h
      split at h
      · obtain ⟨_, _, _, -, -, h⟩ := yields_bind_ok.mp h
        split at h
        · exact absurd h not_yields_fail_ok
        · obtain ⟨_, _, _, -, -, h⟩ := yields_bind_ok.mp h
          rw [(yields_pure_ok.mp h).2]
          exact hb
      · exact ih hb h

theorem search_inv {cs : List Candidate} (hn : cs.Nodup) (hw : Worthwhile r cs) (ht : 0 < r.target)
    {l : Limits} {most : Int} {started : Float} {n : Nat} {best found : Option Best}
    {tr : List Exchange} (hb : BestInv r cs best)
    (h : (search r l most cs started n best).Yields tr (.ok found)) : BestInv r cs found :=
  search_induct hn ht (fun _ _ h₁ h₂ hb => hb.improve hw h₁ h₂) hb h

/-! ## Dividing -/

theorem isSame_comm (p q : Proof) : p.isSame q = q.isSame p := by
  unfold Proof.isSame
  cases p.handle <;> cases q.handle <;> simp [eq_comm]

theorem Distinct.not_same (hd : Distinct proofs) {i j : Nat} {p q : Proof} (hi : proofs[i]? = some p)
    (hj : proofs[j]? = some q) (hij : i ≠ j) : p.isSame q = false := by
  obtain ⟨hi', rfl⟩ := List.getElem?_eq_some_iff.mp hi
  obtain ⟨hj', rfl⟩ := List.getElem?_eq_some_iff.mp hj
  have h := List.pairwise_iff_getElem.mp hd
  rcases Nat.lt_or_gt_of_ne hij with hlt | hlt
  · exact h i j hi' hj' hlt
  · rw [isSame_comm]
    exact h j i hj' hi' hlt

/-- Kept are the proofs at other places, unless one of those to send is the same. -/
theorem divide_keep_eq (chosen : List Nat) : (divide proofs chosen).keep = (proofs.zipIdx.filter fun z =>
    z.2 ∉ chosen && !(arranged proofs chosen).any z.1.isSame).map Prod.fst := rfl

theorem divide_keep_sublist (proofs : List Proof) (chosen : List Nat) :
    (divide proofs chosen).keep.Sublist proofs := by
  rw [divide_keep_eq]
  conv_rhs => rw [← List.zipIdx_map_fst 0 proofs]
  exact List.filter_sublist.map Prod.fst

/-- Of distinct proofs, those kept are the ones at the other places. -/
theorem divide_keep (hd : Distinct proofs) (chosen : List Nat) : (divide proofs chosen).keep =
    arranged proofs ((List.range proofs.length).filter (· ∉ chosen)) := by
  have hf : (proofs.zipIdx.filter fun z => z.2 ∉ chosen && !(arranged proofs chosen).any z.1.isSame)
      = proofs.zipIdx.filter fun z => z.2 ∉ chosen := by
    refine List.filter_congr fun z hz => ?_
    have hq := List.mem_zipIdx_iff_getElem?.mp hz
    by_cases hi : z.2 ∈ chosen
    · simp [hi]
    · have hs : (arranged proofs chosen).any z.1.isSame = false := by
        rw [List.any_eq_false]
        intro p hp
        obtain ⟨j, hj, hp⟩ := List.mem_filterMap.mp hp
        have hij : z.2 ≠ j := fun h => hi (h ▸ hj)
        simpa using hd.not_same hq hp hij
      simp [hi, hs]
  have hm : ∀ z ∈ proofs.zipIdx.filter (fun z => z.2 ∉ chosen), proofs[z.2]? = some z.1 := by
    intro z hz
    exact List.mem_zipIdx_iff_getElem?.mp (List.mem_filter.mp hz).1
  have hr : (proofs.zipIdx.filter fun z => z.2 ∉ chosen).map Prod.snd =
      (List.range proofs.length).filter (· ∉ chosen) := by
    rw [List.range_eq_range', ← List.zipIdx_map_snd 0 proofs, List.filter_map]
    rfl
  rw [← hr, arranged_of_entries hm, divide_keep_eq, hf]

theorem divide_divided (hd : Distinct proofs) {chosen : List Nat} (hn : chosen.Nodup)
    (hr : chosen ⊆ List.range proofs.length) :
    Divided proofs (divide proofs chosen).keep (divide proofs chosen).send := by
  refine ⟨_, chosen, ?_, ?_, divide_keep hd chosen, rfl⟩
  · exact List.pairwise_lt_range.filter _
  · exact List.perm_append_comm.trans (append_filter_perm List.nodup_range hn hr)

/-! ## What was chosen -/

/-- Amounts and rates of the proofs that candidates stand for. -/
theorem arranged_offered {cs : List Candidate} (h : ∀ c ∈ cs, Offered chain proofs c) :
    (arranged proofs (cs.map Candidate.index)).map Proof.amount = cs.map Candidate.amount ∧
      (arranged proofs (cs.map Candidate.index)).mapM (Fee.proofPpk chain) =
        .ok (cs.map Candidate.feePpk) := by
  induction cs with
  | nil => exact ⟨rfl, rfl⟩
  | cons c cs ih =>
    rw [List.forall_mem_cons] at h
    obtain ⟨⟨q, hq, ha, hf⟩, h⟩ := h
    obtain ⟨ih₁, ih₂⟩ := ih h
    rw [List.map_cons, arranged_cons hq]
    constructor
    · rw [List.map_cons, List.map_cons, ih₁, ha]
    · rw [List.mapM_cons, hf, ih₂]
      rfl

theorem netAmount_nil (chain : KeyChain) (includeFees : Bool) :
    netAmount chain includeFees [] = .ok 0 := by
  cases includeFees <;>
    simp [netAmount, Fee.charge, Proof.total, pure, Except.pure, bind, Except.bind]

theorem netAmount_arranged {cs : List Candidate} (h : ∀ c ∈ cs, Offered chain proofs c) :
    netAmount chain r.includeFees (arranged proofs (cs.map Candidate.index)) =
      .ok (r.net (.of cs)) := by
  obtain ⟨ha, hf⟩ := arranged_offered h
  unfold netAmount Fee.charge
  rw [hf, Proof.total, ha, Totals.of_eq_sums, Request.net]
  simp only [Fee.ceilPpk_eq_ceil]
  cases r.includeFees <;> simp [pure, Except.pure, bind, Except.bind]

/-- The proofs meet the request. -/
def Meets (chain : KeyChain) (r : Request) (qs : List Proof) : Prop :=
  ∃ net, netAmount chain r.includeFees qs = .ok net ∧ r.target ≤ net ∧ (r.exact = true → net = r.target)

/-- The subset that was found stands for some of the proofs, and these meet the
request. -/
theorem chosen_meets (ht : 0 < r.target) {os : List Candidate} {b : Best}
    (ho : offers chain proofs = .ok os) (hb : b.Inv r (candidates r os)) :
    b.chosen.Subperm (List.range proofs.length) ∧ arranged proofs b.chosen ≠ [] ∧
      Meets chain r (arranged proofs b.chosen) := by
  obtain ⟨hi, ho⟩ := offers_spec ho
  have hp := List.reverse_perm b.ascending
  have hs := hb.subset.trans (candidates_subperm r os)
  have hc : b.chosen.Subperm (List.range proofs.length) := by
    rw [← hi]
    obtain ⟨l, hl, hs⟩ := hs
    exact (hp.trans hl.symm).map _ |>.subperm.trans (hs.map _).subperm
  have hnet := netAmount_arranged (r := r) fun c hc => ho c (hs.subset (hp.subset hc))
  rw [Totals.of_perm hp, ← hb.totals] at hnet
  obtain ⟨hge, -⟩ := Request.excess?_eq_some.mp hb.excess
  refine ⟨hc, ?_, _, hnet, hge, fun he => ?_⟩
  · intro hnil
    rw [Best.chosen] at hnil
    rw [hnil, netAmount_nil] at hnet
    have := Except.ok.inj hnet
    omega
  · have := hb.within he
    omega

theorem divide_chosen (hd : Distinct proofs) (ht : 0 < r.target) {os : List Candidate} {b : Best}
    (ho : offers chain proofs = .ok os) (hb : b.Inv r (candidates r os)) :
    (divide proofs b.chosen).send ≠ [] ∧
      Divided proofs (divide proofs b.chosen).keep (divide proofs b.chosen).send ∧
      Meets chain r (divide proofs b.chosen).send := by
  obtain ⟨hc, hne, hm⟩ := chosen_meets ht ho hb
  refine ⟨hne, divide_divided hd ?_ hc.subset, hm⟩
  obtain ⟨l, hl, hs⟩ := hc
  exact hl.nodup_iff.mp (List.nodup_range.sublist hs)

/-! ## Selecting -/

/-- A selection keeps everything, or divides the proofs along the subset that the search
ended with. -/
theorem select_inv {l : Limits} {found : Partition} {tr : List Exchange}
    (h : (select chain l r proofs).Yields tr (.ok found)) :
    found = ⟨proofs, []⟩ ∨ 0 < r.target ∧ ∃ os most started t b, offers chain proofs = .ok os ∧
      (search r l most (candidates r os) started l.trials none).Yields t (.ok (some b)) ∧
      found = divide proofs b.chosen := by
  simp only [select, yields_bind_ok, yields_attempt] at h
  obtain ⟨_, _, _, -, ⟨result, ⟨⟩, h⟩, _, _, _, -, -, hr⟩ := h
  obtain ⟨-, rfl⟩ := yields_ofOutcome.mp hr
  simp only [choose, yields_bind_ok] at h
  obtain ⟨started, _, _, -, -, os, _, _, -, ho, h⟩ := h
  replace ho := (yields_lift.mp ho).2
  split at h
  · exact .inl (yields_pure_ok.mp h).2
  · have ht : 0 < r.target := by omega
    obtain ⟨most, _, _, -, -, h⟩ := yields_bind_ok.mp h
    obtain ⟨best, _, _, -, hs, h⟩ := yields_bind_ok.mp h
    cases best with
    | none => exact .inl (yields_pure_ok.mp h).2
    | some b =>
      obtain ⟨_, _, _, -, -, h⟩ := yields_bind_ok.mp h
      exact .inr ⟨ht, os, most, started, _, b, ho, hs, (yields_pure_ok.mp h).2⟩

/-- A selection keeps everything, or divides the proofs along the best subset that
was found for a target above zero. -/
theorem select_cases {l : Limits} {found : Partition} {tr : List Exchange} (hp : Priced chain proofs)
    (h : (select chain l r proofs).Yields tr (.ok found)) :
    found = ⟨proofs, []⟩ ∨ 0 < r.target ∧ ∃ (os : List Candidate) (b : Best),
      offers chain proofs = .ok os ∧ b.Inv r (candidates r os) ∧ found = divide proofs b.chosen := by
  obtain hnone | ⟨ht, os, most, started, t, b, ho, hs, hfound⟩ := select_inv h
  · exact .inl hnone
  · have hw := worthwhile_candidates (r := r) hp (offers_spec ho).2
    have hb := search_inv (candidates_nodup ho) hw ht (by simp [BestInv]) hs
    exact .inr ⟨ht, os, b, ho, hb b rfl, hfound⟩

/-- What a selection keeps are some of the proofs, in their order. -/
theorem select_keep {l : Limits} {found : Partition} {tr : List Exchange}
    (h : (select chain l r proofs).Yields tr (.ok found)) : found.keep.Sublist proofs := by
  obtain rfl | ⟨-, os, most, started, t, b, -, -, rfl⟩ := select_inv h
  · exact List.Sublist.refl _
  · exact divide_keep_sublist ..

/-- Everything is kept, or the proofs are divided and those to send, of which
there are some, meet the request. -/
def Sound (chain : KeyChain) (r : Request) (proofs : List Proof) (found : Partition) : Prop :=
  (found.keep = proofs ∧ found.send = []) ∨
    (found.send ≠ [] ∧ Divided proofs found.keep found.send ∧ Meets chain r found.send)

theorem sound_of_yields {l : Limits} {found : Partition} {tr : List Exchange}
    (hd : Distinct proofs) (hp : Priced chain proofs)
    (h : (select chain l r proofs).Yields tr (.ok found)) : Sound chain r proofs found := by
  rcases select_cases hp h with rfl | ⟨ht, os, b, ho, hb, rfl⟩
  · exact .inl ⟨rfl, rfl⟩
  · exact .inr (divide_chosen hd ht ho hb)

/-- Whatever the clock reads and in whatever order candidates are tried: what a
selection returns is sound. -/
theorem select_sound {σ : Type} (handle : (c : Command) → σ → c.Answer × σ) (s : σ) (chain : KeyChain)
    (l : Limits) (r : Request) (proofs : List Proof) (found : Partition) (hd : Distinct proofs)
    (hp : Priced chain proofs) (h : ((select chain l r proofs).run handle s).1 = .ok found) :
    Sound chain r proofs found :=
  sound_of_yields hd hp (h ▸ yields_run handle _ s)

/-- Two proofs of one keyset, of 1 and of 8, each charged a whole unit: the first
is worth nothing, the second 7. -/
def costly : KeyChain × List Proof :=
  let k : Keyset := ⟨.str "00", .str "sat", .bool true, 1000, .null, []⟩
  (⟨.str "sat", [k]⟩, [1, 8].map fun amount => ⟨k.id, amount, .null, .null, none, .null, none⟩)

theorem select_sound_costly :
    Sound costly.1 ⟨7, true, true⟩ costly.2 ⟨costly.2.take 1, costly.2.drop 1⟩ := by
  have hd : Distinct costly.2 := by decide
  have hp : Priced costly.1 costly.2 := by decide
  have hr : ((select costly.1 .standard ⟨7, true, true⟩ costly.2).run (World.handle .secp256k1)
      (.fresh none (.fresh []))).1 = .ok ⟨costly.2.take 1, costly.2.drop 1⟩ := by
    decide +kernel
  exact select_sound (World.handle .secp256k1) (.fresh none (.fresh [])) _ _ _ _ _ hd hp hr

end Ecash.Selection
