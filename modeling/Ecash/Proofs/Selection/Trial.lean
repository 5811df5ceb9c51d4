import Ecash.Proofs.Selection.Division
import Ecash.Proofs.Selection.Totals

/-!
# What a trial keeps

`Trial.Inv cs s`: members and others of the trial together are the candidates
`cs`, and the running totals are those of the members. `Within r t`: an exact
match has not passed its target. Both hold when a trial starts (`inv_start`,
`within_start`) and survive every exchange; the best subset inherits them, and
`trim` keeps them (`Best.Inv`).
-/
namespace Ecash.Selection

variable {r : Request} {cs : List Candidate}

/-- The candidates, divided, and the totals of the members. -/
structure Trial.Inv (cs : List Candidate) (s : Trial) : Prop where
  perm : (s.members ++ s.others).Perm cs
  totals : s.totals = .of s.members

/-- An exact match is not past its target. -/
def Within (r : Request) (t : Totals) : Prop := r.exact = true → r.net t ≤ r.target

/-! ## Filling -/

/-- A subset is filled with the first candidates of the order. -/
theorem fill_spec (r : Request) (order : List Candidate) (t : Totals) :
    (fill r order t).1 <+: order ∧
      (fill r order t).2 = ⟨t.amount + (Totals.of (fill r order t).1).amount,
        t.feePpk + (Totals.of (fill r order t).1).feePpk⟩ := by
  fun_induction fill r order t with
  | case1 t => simp [Totals.zero]
  | case2 c rest t => simp [Totals.zero]
  | case3 c rest t t' => simp [Totals.of_cons, Totals.plus, Totals.zero, t']
  | case4 c rest t t' _ _ more total hm ih =>
    rw [hm] at ih
    refine ⟨List.cons_prefix_cons.mpr ⟨rfl, ih.1⟩, ?_⟩
    rw [ih.2]
    simp only [Totals.of_cons, Totals.plus, t', Totals.mk.injEq]
    omega

theorem within_fill (r : Request) (order : List Candidate) (t : Totals) (h : Within r t) :
    Within r (fill r order t).2 := by
  fun_induction fill r order t with
  | case1 t => exact h
  | case2 c rest t => exact h
  | case3 c rest t t' hc _ => intro he; simp only [not_and, Int.not_lt] at hc; exact hc he
  | case4 c rest t t' hc _ more total hm ih =>
    rw [hm] at ih
    refine ih fun he => ?_
    simp only [not_and, Int.not_lt] at hc
    exact hc he

theorem inv_start (r : Request) (hn : cs.Nodup) (order : Shuffle cs.length) :
    (Trial.start r cs order).Inv cs := by
  have hp := arranged_shuffle order
  obtain ⟨h₁, h₂⟩ := fill_spec r (arranged cs order.1) .zero
  refine ⟨append_filter_perm hn ((hp.nodup_iff.mpr hn).sublist h₁.sublist) ?_, ?_⟩
  · exact fun c hc => hp.subset (h₁.subset hc)
  · simpa [Trial.start, Totals.zero] using h₂

theorem within_start (ht : 0 < r.target) (order : Shuffle cs.length) :
    Within r (Trial.start r cs order).totals :=
  within_fill r _ _ fun _ => by rw [Request.net_zero]; omega

/-! ## Exchanging -/

theorem partner?_perm {gap : Int} {others rest : List Candidate} {c : Candidate}
    (h : Trial.partner? r gap others = some (c, rest)) : (c :: rest).Perm others := by
  unfold Trial.partner? at h
  split at h
  · exact takeAtMost?_perm h
  · exact takeAtLeast?_perm h

theorem partner?_worth {gap : Int} {others rest : List Candidate} {c : Candidate}
    (he : r.exact = true) (h : Trial.partner? r gap others = some (c, rest)) :
    r.worth c ≤ gap * 1000 := by
  rw [Trial.partner?, if_pos he] at h
  exact takeAtMost?_worth h

/-- What an exchange does, if it does anything: one member goes out and one of
the others, no better than allowed, takes its place. -/
theorem exchange_cases (r : Request) (s : Trial) (i : Nat) :
    s.exchange r i = s ∨ ∃ out inn rest, s.members[i]? = some out ∧
      Trial.partner? r (r.target - r.net (s.totals.minus out)) s.others = some (inn, rest) ∧
      allowed r (r.target - r.net (s.totals.minus out)) out inn = true ∧
      s.exchange r i =
        ⟨s.members.set i inn, insert r out rest, (s.totals.minus out).plus inn⟩ := by
  unfold Trial.exchange
  cases hi : s.members[i]? with
  | none => exact .inl rfl
  | some out =>
    dsimp only
    split
    · exact .inl rfl
    · rename_i inn rest hp
      split
      · rename_i ha
        exact .inr ⟨out, inn, rest, rfl, hp, ha, rfl⟩
      · exact .inl rfl

theorem set_perm {ms : List Candidate} {i : Nat} {out : Candidate} (h : ms[i]? = some out)
    (inn : Candidate) : (out :: ms.set i inn).Perm (inn :: ms) := by
  induction ms generalizing i with
  | nil => simp at h
  | cons m ms ih =>
    cases i with
    | zero =>
      simp only [List.getElem?_cons_zero, Option.some.injEq] at h
      subst h
      exact .swap _ _ _
    | succ i =>
      rw [List.set_cons_succ]
      exact (List.Perm.swap _ _ _).trans (((ih (by simpa using h)).cons m).trans (.swap _ _ _))

theorem Totals.of_set {ms : List Candidate} {i : Nat} {out : Candidate} (h : ms[i]? = some out)
    (inn : Candidate) : Totals.of (ms.set i inn) = ((Totals.of ms).minus out).plus inn := by
  rw [← minus_of_cons out (ms.set i inn), of_perm (set_perm h inn), of_cons]
  simp only [plus, minus, mk.injEq]
  omega

theorem Trial.Inv.exchange {s : Trial} (hs : s.Inv cs) (r : Request) (i : Nat) :
    (s.exchange r i).Inv cs := by
  obtain he | ⟨out, inn, rest, hi, hp, -, he⟩ := exchange_cases r s i
  · rwa [he]
  have hset := set_perm hi inn
  rw [he]
  refine ⟨?_, ?_⟩
  · refine (List.perm_iff_count.mpr fun c => ?_).trans hs.perm
    have h₁ := hset.count_eq c
    have h₂ := (partner?_perm hp).count_eq c
    have h₃ := (insert_perm r out rest).count_eq c
    simp only [List.count_append, List.count_cons] at h₁ h₂ h₃ ⊢
    omega
  · simp only [Totals.of_set hi, hs.totals]

theorem Within.exchange {s : Trial} (h : Within r s.totals) (i : Nat) :
    Within r (s.exchange r i).totals := by
  obtain he | ⟨out, inn, rest, -, hp, -, he⟩ := exchange_cases r s i
  · rwa [he]
  · rw [he]
    exact fun hx => Request.net_plus_le (partner?_worth hx hp)

theorem exchanges_induct {P : Trial → Prop} {s : Trial} (hs : P s)
    (step : ∀ s i, P s → P (s.exchange r i)) (most : Int) (is : List Nat) :
    P (s.exchanges r most is) := by
  induction is generalizing s with
  | nil => exact hs
  | cons i is ih =>
    rw [Trial.exchanges]
    split
    · exact hs
    · exact ih (step s i hs)

/-! ## Keeping the best -/

/-- Candidates as they come from proofs of no negative amount or rate: none costs
more than it brings. -/
def Worthwhile (r : Request) (cs : List Candidate) : Prop :=
  ∀ c ∈ cs, 0 ≤ c.amount ∧ 0 ≤ c.feePpk ∧ (r.includeFees = true → 0 ≤ r.worth c)

theorem Worthwhile.worth_nonneg (hw : Worthwhile r cs) {c : Candidate} (hc : c ∈ cs) :
    0 ≤ r.worth c := by
  obtain ⟨h₁, -, h₃⟩ := hw c hc
  cases hf : r.includeFees with
  | true => exact h₃ hf
  | false =>
    unfold Request.worth
    rw [hf, if_neg (by decide)]
    omega

/-- A subset of the candidates with its totals, which reaches the target, and an
exact match hits it. -/
structure Best.Inv (r : Request) (cs : List Candidate) (b : Best) : Prop where
  subset : b.ascending.Subperm cs
  totals : b.totals = .of b.ascending
  excess : r.excess? b.totals = some b.excess
  within : Within r b.totals

/-- Without a member that is passed over because nothing would be gained, the totals are the same:
it weighs nothing. -/
theorem Totals.minus_eq_of_le {t : Totals} {c : Candidate} {e e' : Int} (ha : 0 ≤ c.amount)
    (hf : 0 ≤ c.feePpk) (he : r.excess? t = some e) (he' : r.excess? (t.minus c) = some e')
    (hle : e ≤ e') : t.minus c = t := by
  obtain ⟨-, hold⟩ := Request.excess?_eq_some.mp he
  obtain ⟨-, hnew⟩ := Request.excess?_eq_some.mp he'
  simp only [minus] at hnew ⊢
  cases t
  simp only [mk.injEq] at hold hnew ⊢
  omega

/-- Trimming starts from a subset with the totals of the best one; a member that
is passed over without effect weighs nothing, so the totals stay right. -/
theorem trim_inv (hw : Worthwhile r cs) {rest : List Candidate} {t : Totals} {best : Best}
    (hr : rest.Subperm cs) (ht : t = .of rest) (hb : best.Inv r cs) (hbt : best.totals = t) :
    (trim r rest t best).Inv r cs := by
  fun_induction trim r rest t best with
  | case1 c d rest t best hx => exact hb
  | case2 c d rest t best hx t' he => exact hb
  | case3 c d rest t best hx t' e he hlt ih =>
    have hd : (d :: rest).Subperm cs := ((List.sublist_cons_self _ _).subperm).trans hr
    have ht' : t' = .of (d :: rest) := by rw [← Totals.minus_of_cons c, ← ht]
    have hc := hw.worth_nonneg (hr.subset List.mem_cons_self)
    refine ih hd ht' ⟨hd, ht', he, fun hx => ?_⟩ rfl
    exact (Request.net_minus_le hc).trans (hbt ▸ hb.within hx)
  | case4 c d rest t best hx t' e he hge ih =>
    have hd : (d :: rest).Subperm cs := ((List.sublist_cons_self _ _).subperm).trans hr
    obtain ⟨h₁, h₂, -⟩ := hw c (hr.subset (by simp))
    have hc : t' = t := Totals.minus_eq_of_le h₁ h₂ (hbt ▸ hb.excess) he (not_lt.mp hge)
    refine ih hd ?_ hb hbt
    rw [← hc, ← Totals.minus_of_cons c, ← ht]
  | case5 => exact hb
  | case6 => exact hb

/-- The best subset so far, if there is one, is one. -/
def BestInv (r : Request) (cs : List Candidate) (best : Option Best) : Prop :=
  ∀ b ∈ best, b.Inv r cs

/-- Trimming starts with the members, from the least worth on, and with their totals. -/
theorem Trial.Inv.trimmed {s : Trial} (hs : s.Inv cs) :
    (descending r s.members).reverse.Subperm cs ∧
      s.totals = .of (descending r s.members).reverse := by
  have hp := descending_reverse_perm r s.members
  have hmembers : s.members.Subperm cs :=
    (List.sublist_append_left _ _).subperm.trans hs.perm.subperm
  exact ⟨hp.subperm.trans hmembers, by rw [hs.totals, Totals.of_perm hp]⟩

theorem BestInv.improve (hw : Worthwhile r cs) {s : Trial} (hs : s.Inv cs) (ht : Within r s.totals)
    {best : Option Best} (hb : BestInv r cs best) : BestInv r cs (s.improve r best) := by
  unfold Trial.improve
  split
  · exact hb
  · rename_i e he
    split
    · obtain ⟨hsub, htot⟩ := hs.trimmed (r := r)
      rintro _ ⟨⟩
      exact trim_inv hw hsub htot ⟨hsub, htot, he, ht⟩ rfl
    · exact hb

end Ecash.Selection
