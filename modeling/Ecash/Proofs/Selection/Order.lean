import Ecash.Proofs.Selection.Bisection
import Ecash.Proofs.Selection.Soundness
import Mathlib.Logic.Function.Iterate

/-!
# A trial stays in order

While a trial goes on, its members and the others share out the candidates, the others stand in
ascending order of worth, and the running totals are those of the members (`Trial.Ordered`). So
what is looked for among the others can be found by halving. Trimming goes round by round
(`trim_eq_iterate`). A member is passed over even where that gains nothing; as it weighs nothing
then, the totals of the best subset stay right (`Trimming.Inv.next`).
-/
namespace Ecash.Selection

variable {chain : KeyChain} {proofs : List Proof} {r : Request} {cs os : List Candidate}

/-! ## Candidates in order -/

/-- The candidates, shared out between the members and the others, in order, and the totals of
the members. -/
structure Trial.Ordered (r : Request) (cs : List Candidate) (s : Trial) : Prop extends s.Inv cs where
  disjoint : s.members.Disjoint s.others
  ascending : Ascending r s.others

theorem Trial.Inv.ordered {s : Trial} (hn : cs.Nodup) (h : s.Inv cs) (ha : Ascending r s.others) :
    s.Ordered r cs :=
  ⟨h, List.disjoint_of_nodup_append (h.perm.nodup_iff.mpr hn), ha⟩

theorem candidates_ascending (r : Request) (os : List Candidate) : Ascending r (candidates r os) := by
  have hsorted : Ascending r (ascending r (worthwhile r os)) := ascending_pairwise r _
  unfold candidates prune
  split
  · exact hsorted.sublist (List.takeWhile_sublist _)
  · split
    · exact hsorted
    · exact hsorted.sublist (List.takeWhile_sublist _)

theorem ordered_start (hn : cs.Nodup) (ha : Ascending r cs) (order : Shuffle cs.length) :
    (Trial.start r cs order).Ordered r cs :=
  (inv_start r hn order).ordered hn (ha.sublist List.filter_sublist)

/-! ## Exchanging -/

/-- Who comes in is taken out of the others, and their order stays. -/
theorem partner?_sublist {gap : Int} {others rest : List Candidate} {inn : Candidate}
    (ha : Ascending r others) (h : Trial.partner? r gap others = some (inn, rest)) :
    rest.Sublist others := by
  unfold Trial.partner? at h
  split at h
  · rw [takeAtMost?_eq_bisect ha, bisectAtMost?] at h
    split at h
    · cases h
    · obtain ⟨_, -, he⟩ := Option.map_eq_some_iff.mp h
      cases he
      exact List.eraseIdx_sublist ..
  · rw [takeAtLeast?_eq_bisect ha, bisectAtLeast?] at h
    obtain ⟨_, -, he⟩ := Option.map_eq_some_iff.mp h
    cases he
    exact List.eraseIdx_sublist ..

/-- Who goes out finds a place among the others. -/
theorem ascending_insert (ha : Ascending r cs) (c : Candidate) :
    Ascending r (insert r c cs) := by
  have hbefore : ∀ a ∈ cs.takeWhile (r.worth · < r.worth c), r.worth a < r.worth c := fun a h =>
    by simpa using List.mem_takeWhile_imp h
  have hbehind : ∀ b ∈ cs.dropWhile (r.worth · < r.worth c), r.worth c ≤ r.worth b := fun b h =>
    by simpa using (ha.graded_lt (r.worth c)).not_below b h
  refine List.pairwise_append.mpr ⟨ha.sublist (List.takeWhile_sublist _),
    List.pairwise_cons.mpr ⟨hbehind, ha.sublist (List.dropWhile_sublist _)⟩, ?_⟩
  intro a hl b hr
  have hlow := hbefore a hl
  rcases List.mem_cons.mp hr with rfl | hr
  · omega
  · have hhigh := hbehind b hr
    omega

theorem Trial.Ordered.exchange (hn : cs.Nodup) {s : Trial} (h : s.Ordered r cs) (i : Nat) :
    (s.exchange r i).Ordered r cs := by
  refine (h.toInv.exchange r i).ordered hn ?_
  obtain he | ⟨out, inn, rest, -, hp, -, he⟩ := exchange_cases r s i
  · rw [he]
    exact h.ascending
  · rw [he]
    exact ascending_insert (h.ascending.sublist (partner?_sublist h.ascending hp)) out

/-! ## Trimming -/

/-- Where trimming is: the members that have not been passed over, from the least worth on, the
running totals, and the best subset. -/
structure Trimming where
  rest : List Candidate
  totals : Totals
  best : Best

/-- Trimming starts with the members of a trial. -/
def Trial.trimming (r : Request) (s : Trial) (excess : Int) : Trimming :=
  let cs := (descending r s.members).reverse
  ⟨cs, s.totals, ⟨cs, s.totals, excess⟩⟩

namespace Trimming

/-- One round of trimming; none changes anything once trimming has ended. -/
def next (r : Request) (t : Trimming) : Trimming :=
  match t.rest with
  | c :: d :: rest =>
    if t.best.excess ≤ 0 then t
    else
      let totals := t.totals.minus c
      match r.excess? totals with
      | none => t
      | some e =>
        if e < t.best.excess then ⟨d :: rest, totals, ⟨d :: rest, totals, e⟩⟩
        else ⟨d :: rest, t.totals, t.best⟩
  | [] | [_] => t

/-- The best subset is in order, has its totals, and its excess is the least so far. The totals
of what has not been passed over are the same. -/
structure Inv (r : Request) (cs : List Candidate) (t : Trimming) : Prop where
  rest : t.rest.Subperm cs
  restAscending : Ascending r t.rest
  restTotals : t.totals = .of t.rest
  ascending : Ascending r t.best.ascending
  totals : t.best.totals = .of t.best.ascending
  excess : r.excess? t.best.totals = some t.best.excess
  same : t.best.totals = t.totals

theorem inv_start {s : Trial} (hs : s.Inv cs) {e : Int} (he : r.excess? s.totals = some e) :
    (s.trimming r e).Inv r cs := by
  obtain ⟨hsub, htotals⟩ := hs.trimmed (r := r)
  have hsorted : Ascending r (descending r s.members).reverse := descending_reverse_pairwise r _
  exact ⟨hsub, hsorted, htotals, hsorted, htotals, he, rfl⟩

theorem Inv.next (hw : Worthwhile r cs) {t : Trimming} (h : t.Inv r cs) : (t.next r).Inv r cs := by
  unfold Trimming.next
  split
  · rename_i c d rest hrest
    have hsorted := h.restAscending
    have hsub := h.rest
    have htotals := h.restTotals
    rw [hrest] at hsorted hsub htotals
    have hsub' : (d :: rest).Subperm cs := (List.sublist_cons_self _ _).subperm.trans hsub
    have hsorted' : Ascending r (d :: rest) := (List.pairwise_cons.mp hsorted).2
    have htotals' : t.totals.minus c = .of (d :: rest) := by rw [htotals, Totals.minus_of_cons]
    split
    · exact h
    dsimp only
    split
    · exact h
    · rename_i e he
      split
      · exact ⟨hsub', hsorted', htotals', hsorted', htotals', he, rfl⟩
      · rename_i hge
        obtain ⟨hamount, hfee, -⟩ := hw c (hsub.subset List.mem_cons_self)
        have hsame : t.totals.minus c = t.totals :=
          Totals.minus_eq_of_le hamount hfee (h.same ▸ h.excess) he (not_lt.mp hge)
        exact ⟨hsub', hsorted', hsame ▸ htotals', h.ascending, h.totals, h.excess, h.same⟩
  · exact h
  · exact h

theorem Inv.iterate (hw : Worthwhile r cs) {t : Trimming} (h : t.Inv r cs) (n : Nat) :
    ((Trimming.next r)^[n] t).Inv r cs := by
  induction n with
  | zero => exact h
  | succ n ih =>
    rw [Function.iterate_succ_apply']
    exact ih.next hw

end Trimming

/-- Trimming goes round by round. -/
theorem trim_eq_iterate (r : Request) (rest : List Candidate) (t : Totals) (best : Best) :
    trim r rest t best = ((Trimming.next r)^[rest.length] ⟨rest, t, best⟩).best := by
  have hended {s : Trimming} (h : s.next r = s) (n : Nat) : (Trimming.next r)^[n] s = s :=
    Function.iterate_fixed h n
  fun_induction trim r rest t best with
  | case1 c d rest t best hx =>
    rw [hended (by simp [Trimming.next, hx])]
  | case2 c d rest t best hx t' hnone =>
    rw [hended (by simp [Trimming.next, hx, t', hnone])]
  | case3 c d rest t best hx t' e he hlt ih =>
    have hnext : Trimming.next r ⟨c :: d :: rest, t, best⟩ = ⟨d :: rest, t', ⟨d :: rest, t', e⟩⟩ := by
      simp [Trimming.next, hx, t', he, hlt]
    rw [ih, ← hnext, ← Function.iterate_succ_apply]
    rfl
  | case4 c d rest t best hx t' e he hge ih =>
    have hnext : Trimming.next r ⟨c :: d :: rest, t, best⟩ = ⟨d :: rest, t, best⟩ := by
      simp [Trimming.next, hx, t', he, hge]
    rw [ih, ← hnext, ← Function.iterate_succ_apply]
    rfl
  | case5 t best => rfl
  | case6 c t best => rfl

/-- A trial leaves the best subset as it is, or becomes the best one when it has been trimmed. -/
theorem improve_eq_iterate {s : Trial} {e : Int} (he : r.excess? s.totals = some e)
    (best : Option Best) : s.improve r best = best ∨
      s.improve r best = some ((Trimming.next r)^[s.members.length] (s.trimming r e)).best := by
  have hlength := (descending_reverse_perm r s.members).length_eq
  unfold Trial.improve
  rw [he]
  dsimp only
  split
  · right
    rw [trim_eq_iterate, hlength]
    rfl
  · exact .inl rfl

/-- Proofs of no negative amount, in known keysets of no negative rate. Whatever is looked for, in
whatever order the members are filled in and gone through: after the fill, and after every
exchange, members and others share out the candidates, the others are in ascending order of worth,
and the running totals are those of the members. So a search among the others by halving finds
what is to be found, and the place for a candidate to put back. Where the trial reaches the
target, through every round of trimming the best subset has its totals and is in descending order
of worth, from the most worth on. -/
theorem trial_ordered (chain : KeyChain) (r : Request) (proofs : List Proof) (os : List Candidate)
    (hp : Priced chain proofs) (ho : offers chain proofs = .ok os) (most : Int)
    (order : Shuffle (candidates r os).length) (positions : List Nat) (k : Nat) :
    let s := (Trial.start r (candidates r os) order).exchanges r most (positions.take k)
    s.Ordered r (candidates r os) ∧
      (∀ limit, takeAtMost? r limit s.others = bisectAtMost? r limit s.others ∧
        takeAtLeast? r limit s.others = bisectAtLeast? r limit s.others) ∧
      (∀ gap inn rest, Trial.partner? r gap s.others = some (inn, rest) →
        ∀ out, insert r out rest = bisectInsert r out rest) ∧
      ∀ e, r.excess? s.totals = some e →
        (∀ n, let best := ((Trimming.next r)^[n] (s.trimming r e)).best
          best.totals = .of best.ascending ∧
            best.ascending.reverse.Pairwise fun a b => r.worth b ≤ r.worth a) ∧
        ∀ best, s.improve r best = best ∨
          s.improve r best = some ((Trimming.next r)^[s.members.length] (s.trimming r e)).best := by
  intro s
  have hn := candidates_nodup (r := r) ho
  have hs : s.Ordered r (candidates r os) :=
    exchanges_induct (ordered_start hn (candidates_ascending r os) order)
      (fun _ i h => h.exchange hn i) most _
  refine ⟨hs, fun limit => ⟨?_, ?_⟩, fun gap inn rest hpartner out => ?_, fun e he => ⟨fun n => ?_, ?_⟩⟩
  · exact takeAtMost?_eq_bisect hs.ascending limit
  · exact takeAtLeast?_eq_bisect hs.ascending limit
  · exact insert_eq_bisect (hs.ascending.sublist (partner?_sublist hs.ascending hpartner)) out
  · have hw := worthwhile_candidates (r := r) hp (offers_spec ho).2
    have hinv := (Trimming.inv_start hs.toInv he).iterate hw n
    exact ⟨hinv.totals, List.pairwise_reverse.mpr hinv.ascending⟩
  · exact improve_eq_iterate he

/-- Proofs of one keyset. -/
def oneToNine : List Proof :=
  [1, 3, 4, 8, 9].map fun amount => ⟨.str "00", amount, .null, .null, none, .null, none⟩

/-- For at least 5 nine is left out, and three and four are taken. Then one comes in for three,
which goes back between the others. -/
theorem trial_ordered_oneToNine : ∃ os, Priced costly.1 oneToNine ∧
    offers costly.1 oneToNine = .ok os ∧ ∃ order : Shuffle (candidates ⟨5, false, false⟩ os).length,
      let s := (Trial.start ⟨5, false, false⟩ (candidates ⟨5, false, false⟩ os) order).exchanges
        ⟨5, false, false⟩ 5 [0]
      s.members.map Candidate.amount = [1, 4] ∧ s.others.map Candidate.amount = [3, 8] ∧
        s.Ordered ⟨5, false, false⟩ (candidates ⟨5, false, false⟩ os) := by
  let os : List Candidate := [⟨0, 1, 1000⟩, ⟨1, 3, 1000⟩, ⟨2, 4, 1000⟩, ⟨3, 8, 1000⟩, ⟨4, 9, 1000⟩]
  have hp : Priced costly.1 oneToNine := by decide
  have ho : offers costly.1 oneToNine = .ok os := by decide
  have hsorted : ascending ⟨5, false, false⟩ os = os := List.mergeSort_of_pairwise (by decide)
  have hcs : candidates ⟨5, false, false⟩ os = os.take 4 := by
    rw [candidates, worthwhile, if_neg (by decide), hsorted]
    decide
  have key := fun order => (trial_ordered costly.1 ⟨5, false, false⟩ oneToNine os hp ho 5 order [0] 1).1
  refine ⟨os, hp, ho, ?_⟩
  rw [hcs] at key ⊢
  exact ⟨⟨[1, 2, 0, 3], by decide⟩, by decide, by decide, key _⟩

end Ecash.Selection
