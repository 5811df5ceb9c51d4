import Ecash.Proofs.Selection.Coverage

/-!
# What an exchange gains

An exact match exchanges a member for one that is worth more, and never leads past the
target. A close match only exchanges members of a subset that reaches the target
(`reaches_or_full`), and the subset still reaches it afterwards. So an exchange never
leads away from the target, with one exception (`exchange_improves`): where the rest of
a close subset does not pass the target, the least candidate that makes up for the
member comes in, and it may be worth more than the member (`exchange_overshoots`).
-/
namespace Ecash.Selection

variable {r : Request} {s : Trial} {i : Nat} {out inn : Candidate} {t : Totals}

/-- How far totals are from the target, on either side. -/
def Request.distance (r : Request) (t : Totals) : Nat := (r.net t - r.target).natAbs

/-- What the subset is short of without a member. -/
def Trial.gap (r : Request) (s : Trial) (out : Candidate) : Int :=
  r.target - r.net (s.totals.minus out)

/-- The member `out` at position `i` is exchanged for `inn`. -/
structure Trial.Exchanged (r : Request) (s : Trial) (i : Nat) (out inn : Candidate) : Prop where
  member : s.members[i]? = some out
  partner : (Trial.partner? r (s.gap r out) s.others).map Prod.fst = some inn
  allowed : allowed r (s.gap r out) out inn = true

/-! ## One exchange -/

theorem exchange_totals (h : s.Exchanged r i out inn) :
    (s.exchange r i).totals = (s.totals.minus out).plus inn := by
  obtain ⟨⟨_, rest⟩, hpartner, rfl⟩ := Option.map_eq_some_iff.mp h.partner
  have hallowed := h.allowed
  unfold Trial.gap at hpartner hallowed
  unfold Trial.exchange
  rw [h.member]
  dsimp only
  rw [hpartner]
  dsimp only
  rw [if_pos hallowed]

theorem exchanged_or_same (r : Request) (s : Trial) (i : Nat) :
    s.exchange r i = s ∨ ∃ out inn, s.Exchanged r i out inn := by
  obtain hsame | ⟨out, inn, rest, hmember, hpartner, hallowed, -⟩ := exchange_cases r s i
  · exact .inl hsame
  · exact .inr ⟨out, inn, hmember, Option.map_eq_some_iff.mpr ⟨_, hpartner, rfl⟩, hallowed⟩

/-- A member worth as much or less comes in. -/
theorem net_exchange_le (h : r.worth inn ≤ r.worth out) :
    r.net ((t.minus out).plus inn) ≤ r.net t := by
  have hafter := Request.le_net_iff.mp (le_refl (r.net ((t.minus out).plus inn)))
  rw [Request.weight_plus, Request.weight_minus] at hafter
  rw [Request.le_net_iff]
  omega

/-- A member worth as much or more comes in. -/
theorem le_net_exchange (h : r.worth out ≤ r.worth inn) :
    r.net t ≤ r.net ((t.minus out).plus inn) := by
  have hbefore := Request.le_net_iff.mp (le_refl (r.net t))
  rw [Request.le_net_iff, Request.weight_plus, Request.weight_minus]
  omega

/-- An exact match gains, and does not pass the target. -/
theorem Trial.Exchanged.exact (h : s.Exchanged r i out inn) (hx : r.exact = true) :
    r.worth out < r.worth inn ∧ r.net s.totals ≤ r.net (s.exchange r i).totals ∧
      r.net (s.exchange r i).totals ≤ r.target := by
  have hup : r.worth out < r.worth inn := by
    have hallowed := h.allowed
    simp only [Selection.allowed, hx, Bool.not_true, Bool.false_or, Bool.and_eq_true,
      decide_eq_true_eq] at hallowed
    exact hallowed.1
  obtain ⟨_, hpartner, rfl⟩ := Option.map_eq_some_iff.mp h.partner
  rw [exchange_totals h]
  exact ⟨hup, le_net_exchange hup.le, Request.net_plus_le (partner?_worth hx hpartner)⟩

/-- A close match reaches the target afterwards; it may only exchange upward where the rest of
the subset does not pass the target. -/
theorem Trial.Exchanged.close (h : s.Exchanged r i out inn) (hx : r.exact = false) :
    r.target ≤ r.net (s.exchange r i).totals ∧ (0 ≤ s.gap r out ∨ r.worth inn ≤ r.worth out) := by
  have hallowed := h.allowed
  obtain ⟨_, hpartner, rfl⟩ := Option.map_eq_some_iff.mp h.partner
  rw [exchange_totals h]
  constructor
  · rw [Trial.partner?, if_neg (by simp [hx])] at hpartner
    exact Request.le_net_plus (takeAtLeast?_worth hpartner)
  · simpa [Selection.allowed, hx] using hallowed

/-! ## All exchanges -/

/-- The fill of a close match reaches the target or takes everything. -/
theorem fill_reaches_or_full (hx : r.exact = false) (order : List Candidate) (t : Totals) :
    r.target ≤ r.net (fill r order t).2 ∨ (fill r order t).1 = order := by
  fun_induction fill r order t with
  | case1 t => exact .inr rfl
  | case2 c rest t t' hpast => simp [hx] at hpast
  | case3 c rest t t' _ hreach => exact .inl hreach
  | case4 c rest t t' _ _ more total hfill ih =>
    rw [hfill] at ih
    exact ih.imp_right (congrArg (c :: ·))

/-- While a close match does not reach the target, nothing is left to exchange for. -/
theorem reaches_or_full (hx : r.exact = false) {cs : List Candidate} (order : Shuffle cs.length)
    (most : Int) (is : List Nat) :
    let s := (Trial.start r cs order).exchanges r most is
    r.target ≤ r.net s.totals ∨ s.others = [] := by
  refine exchanges_induct (P := fun s => r.target ≤ r.net s.totals ∨ s.others = []) ?_ ?_ most is
  · refine (fill_reaches_or_full hx (arranged cs order.1) .zero).imp_right fun hfull => ?_
    unfold Trial.start
    rw [List.filter_eq_nil_iff]
    intro c hc
    have hmem : c ∈ arranged cs order.1 := (arranged_shuffle order).mem_iff.mpr hc
    simpa [hfull] using hmem
  · intro s i hs
    obtain hsame | ⟨out, inn, h⟩ := exchanged_or_same r s i
    · rwa [hsame]
    · exact .inl (h.close hx).1

theorem Trial.Exchanged.others_ne_nil (h : s.Exchanged r i out inn) : s.others ≠ [] := by
  intro hnil
  have hpartner := h.partner
  rw [hnil] at hpartner
  simp [Trial.partner?, takeAtMost?, takeAtLeast?] at hpartner

/-- Exchanging as a whole leads an exact match towards the target. -/
theorem exchanges_gain (hx : r.exact = true) (most : Int) (is : List Nat) (s : Trial) :
    r.net s.totals ≤ r.net (s.exchanges r most is).totals := by
  refine exchanges_induct (P := fun s' => r.net s.totals ≤ r.net s'.totals) (le_refl _) ?_ most is
  intro s' i hs'
  obtain hsame | ⟨out, inn, h⟩ := exchanged_or_same r s' i
  · rwa [hsame]
  · exact hs'.trans (h.exact hx).2.1

/-- Whatever the candidates and the target are, in whatever order the subset is filled and its
members are gone through: where a member is exchanged, an exact match is worth no less than
before, and no more than the target. A close match has reached the target before, and
reaches it again. The distance from the target does not grow, unless a close match exchanges
upward, the rest of its subset not being past the target. -/
theorem exchange_improves (r : Request) (most : Int) (cs : List Candidate) (order : Shuffle cs.length)
    (is : List Nat) (i : Nat) (out inn : Candidate)
    (h : ((Trial.start r cs order).exchanges r most is).Exchanged r i out inn) :
    let s := (Trial.start r cs order).exchanges r most is
    let s' := s.exchange r i
    (r.exact = true → r.net (Trial.start r cs order).totals ≤ r.net s.totals ∧
        r.net s.totals ≤ r.net s'.totals ∧ r.net s'.totals ≤ r.target) ∧
      (r.exact = false → r.target ≤ r.net s.totals ∧ r.target ≤ r.net s'.totals ∧
        (r.worth inn ≤ r.worth out → r.net s'.totals ≤ r.net s.totals)) ∧
      (r.distance s'.totals ≤ r.distance s.totals ∨
        r.exact = false ∧ 0 ≤ s.gap r out ∧ r.worth out < r.worth inn) := by
  intro s s'
  unfold Request.distance
  cases hx : r.exact with
  | true =>
    obtain ⟨-, hgain, hwithin⟩ := h.exact hx
    refine ⟨fun _ => ⟨exchanges_gain hx most is _, hgain, hwithin⟩, nofun, .inl ?_⟩
    change r.net s.totals ≤ r.net s'.totals at hgain
    change r.net s'.totals ≤ r.target at hwithin
    omega
  | false =>
    obtain ⟨hreach', hdown⟩ := h.close hx
    have hreach : r.target ≤ r.net s.totals :=
      (reaches_or_full hx order most is).resolve_right h.others_ne_nil
    have hle (hw : r.worth inn ≤ r.worth out) : r.net s'.totals ≤ r.net s.totals := by
      unfold s'
      rw [exchange_totals h]
      exact net_exchange_le hw
    refine ⟨nofun, fun _ => ⟨hreach, hreach', hle⟩, ?_⟩
    change r.target ≤ r.net s'.totals at hreach'
    by_cases hw : r.worth inn ≤ r.worth out
    · have := hle hw
      omega
    · exact .inr ⟨rfl, hdown.resolve_right hw, Int.not_le.mp hw⟩

/-- Candidates of keysets without fees. -/
def feeless (amounts : List Int) : List Candidate :=
  amounts.zipIdx.map fun (amount, i) => ⟨i, amount, 0⟩

/-- For exactly 5 one and two are taken; then four comes in for two. -/
theorem exchange_improves_four :
    let r : Request := ⟨5, false, true⟩
    let s := Trial.start r (feeless [1, 2, 4]) ⟨[0, 1, 2], by decide⟩
    s.Exchanged r 1 ⟨1, 2, 0⟩ ⟨2, 4, 0⟩ ∧ r.net s.totals = 3 ∧
      r.net s.totals ≤ r.net (s.exchange r 1).totals ∧ r.net (s.exchange r 1).totals ≤ 5 ∧
      r.distance (s.exchange r 1).totals ≤ r.distance s.totals := by
  intro r s
  have h : s.Exchanged r 1 ⟨1, 2, 0⟩ ⟨2, 4, 0⟩ := ⟨by decide, by decide, by decide⟩
  obtain ⟨hexact, -, hdistance⟩ := exchange_improves r 5 (feeless [1, 2, 4]) ⟨[0, 1, 2], by decide⟩ [] 1
    ⟨1, 2, 0⟩ ⟨2, 4, 0⟩ h
  obtain ⟨-, hgain, hwithin⟩ := hexact rfl
  exact ⟨h, by decide, hgain, hwithin, hdistance.resolve_right nofun⟩

/-- For at least 5 three and four are taken, 2 too many. Without three the subset is one short,
and of the others only eight makes up for it: it comes in, and then 7 are too many. When the
next exchange has been made the subset is still worth 11. -/
theorem exchange_overshoots :
    let r : Request := ⟨5, false, false⟩
    let s := Trial.start r (feeless [3, 4, 8]) ⟨[0, 1, 2], by decide⟩
    s.Exchanged r 0 ⟨0, 3, 0⟩ ⟨2, 8, 0⟩ ∧ r.net s.totals = 7 ∧ r.net (s.exchange r 0).totals = 12 ∧
      r.distance s.totals < r.distance (s.exchange r 0).totals ∧
      r.net (s.exchanges r 5 [0, 1]).totals = 11 := by
  exact ⟨⟨by decide, by decide, by decide⟩, by decide, by decide, by decide, by decide⟩

end Ecash.Selection
