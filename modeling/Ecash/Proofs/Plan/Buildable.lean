import Ecash.Proofs.Amount
import Ecash.Proofs.Plan
import Ecash.Proofs.Program.Careful

/-!
# Groups that can be built

A group is refused before counters are reserved for it, or not at all: once it has
passed its checks (`Buildable`), neither reserving its counters nor building it ends
with a refusal (`assign_avoids`, `groups_avoid`). A configured group has passed them,
unless its amount is negative and its denominations were left to the wallet
(`buildable_of_configure`).
-/
namespace Ecash

/-- A refusal of what was asked for: the options, the funds or the keyset will not do. -/
def Failure.Validation (e : Failure) : Prop := e.ofKind [.configuration, .funds, .keyset] = true

/-- What fails in any other way is not refused. -/
theorem Failure.Validation.ne {α : Type} {e e' : Failure} (he : e.Validation) (h : ¬ e'.Validation) :
    (.error e' : Outcome α) ≠ .error e := by
  rintro ⟨⟩
  exact h he

/-- The wallet refuses, for whatever reason. -/
def Failure.Refusal : Failure → Prop
  | .wallet _ => True
  | _ => False

theorem Failure.Validation.refusal {e : Failure} (he : e.Validation) : e.Refusal := by
  cases e with
  | wallet w => trivial
  | _ => cases he

theorem Failure.Refusal.ne {α : Type} {e e' : Failure} (he : e.Refusal) (h : ¬ e'.Refusal) :
    (.error e' : Outcome α) ≠ .error e := by
  rintro ⟨⟩
  exact h he

/-- The denominations are left to the wallet. -/
def Policy.isOpen : Policy → Bool
  | .random ds | .deterministic _ ds | .locked _ ds | .factory _ ds => ds.isEmpty
  | .custom _ => false

theorem Policy.denominations_ne_nil {p : Policy} (hp : ∀ data, p ≠ .custom data)
    (h : p.isOpen = false) : p.denominations ≠ [] := by
  cases p with
  | custom data => exact absurd rfl (hp data)
  | _ => simpa [isOpen, denominations] using h

/-- Has passed the checks: the policy has what it needs, and the parts add up. -/
structure OutputSpec.Buildable (seeded : Bool) (s : OutputSpec) : Prop where
  check : s.policy.check seeded = .ok ()
  sum : (∀ data, s.policy ≠ .custom data) → s.denominations.sum = s.amount

variable {e : Failure} {S : Suite} {seeded : Bool} {k : Keyset} {s : OutputSpec}

/-! ## Making outputs -/

theorem hashToCurve_ne_error (he : e.Refusal) (message : Bytes) :
    S.hashToCurve message ≠ .error e := by
  have hfirst (seed : Bytes) (fuel counter : Nat) : S.firstPoint seed fuel counter ≠ .error e := by
    induction fuel generalizing counter with
    | zero => exact he.ne nofun
    | succ fuel ih =>
      unfold Suite.firstPoint
      split
      · nofun
      · exact ih _
  exact hfirst _ _ _

theorem pointHex_ne_error (he : e.Refusal) (q : S.Point) : S.pointHex q ≠ .error e := by
  unfold Suite.pointHex
  split
  · nofun
  · exact he.ne nofun

/-- An output can be made or not; the wallet has no say in it. -/
theorem ofSecret_ne_error (he : e.Refusal) (amount : Int) (keyset : Json) (secret : Bytes)
    (factor : Int) : Output.ofSecret S amount keyset secret factor ≠ .error e := by
  have hblind : S.blind secret factor ≠ .error e := by
    intro h
    have hpoint := hashToCurve_ne_error (S := S) he secret
    unfold Suite.blind at h
    cases hr : S.hashToCurve secret with
    | ok y =>
      rw [hr] at h
      cases h
    | error e' =>
      rw [hr] at h hpoint
      cases h
      exact hpoint rfl
  refine Outcome.bind_ne_error hblind fun b => ?_
  exact Outcome.bind_ne_error (pointHex_ne_error he b) fun _ => nofun

/-- A failure that making an output can end with: some secret belongs to no point, or the
blinded point has no bytes. -/
def Suite.Unblindable (S : Suite) (e : Failure) : Prop :=
  ∃ amount keyset secret factor, Output.ofSecret S amount keyset secret factor = .error e

theorem Failure.Refusal.not_unblindable (he : e.Refusal) : ¬ S.Unblindable e := by
  rintro ⟨amount, keyset, secret, factor, h⟩
  exact ofSecret_ne_error he amount keyset secret factor h

namespace Plan

open Program

theorem avoids_ofSecret (he : ¬ S.Unblindable e) (amount : Int) (keyset : Json) (secret : Bytes)
    (factor : Int) : (liftM (Output.ofSecret S amount keyset secret factor) : Program Output).Avoids e :=
  avoids_lift fun h => he ⟨amount, keyset, secret, factor, h⟩

theorem blinded_avoids (he : ¬ S.Unblindable e) (keyset : Json) (secret : String) (amount : Int) :
    (blinded S keyset secret amount).Avoids e :=
  avoids_asked.bind fun _ => avoids_ofSecret he _ _ _ _

theorem deriveAll_avoids (he : ¬ S.Unblindable e) (keyset : Json) (use : IndexUse) (start : Int)
    (parts : List Int) : (deriveAll S keyset use start parts).Avoids e := by
  induction parts generalizing start with
  | nil => exact avoids_pure _
  | cons amount rest ih =>
    have hderive : (derive keyset start use).Avoids e := fun _ hr => Outcome.ne_error_of_failure? hr
    have hderived : (derived S keyset use amount start).Avoids e :=
      hderive.bind fun _ => avoids_ofSecret he _ _ _ _
    exact hderived.bind fun _ => (ih _).bind fun _ => avoids_pure _

theorem outputs_avoids (he : ¬ S.Unblindable e) {policy : Policy} {counter : Option Int}
    (hcheck : policy.check seeded = .ok ())
    (hcounter : policy.isDeterministic = true → counter.isSome) (parts : List Int) :
    (outputs S seeded k policy counter parts).Avoids e := by
  cases policy with
  | random ds => exact avoids_mapM fun _ _ => avoids_asked.bind fun _ => blinded_avoids he _ _ _
  | locked options ds =>
    refine avoids_mapM fun _ _ => ?_
    unfold locked
    split
    · rename_i hnone
      simp [Policy.check, hnone, refuse] at hcheck
    · exact avoids_asked.bind fun _ => blinded_avoids he _ _ _
  | factory number ds => exact avoids_mapM fun _ _ => fun _ hr => Outcome.ne_error_of_failure? hr
  | custom data => exact avoids_pure data
  | deterministic n ds =>
    obtain ⟨start, rfl⟩ := Option.isSome_iff_exists.mp (hcounter rfl)
    cases seeded with
    | true => exact deriveAll_avoids he _ _ _ _
    | false => cases hcheck

/-- A deterministic group that waits for no counters has one, if it has parts. -/
theorem counter_isSome (hc : s.countersNeeded = 0) (hne : s.denominations ≠ []) :
    s.policy.isDeterministic = true → s.counter.isSome := by
  intro hd
  by_contra hnone
  have hwaits : (s.policy.isDeterministic && s.counter.isNone) = true := by simpa [hd] using hnone
  rw [OutputSpec.countersNeeded, if_pos hwaits] at hc
  exact hne (List.length_eq_zero_iff.mp hc)

/-- The caller's own outputs are the group. -/
theorem build_of_custom {data : List Output} (ha : 0 ≤ s.amount) (hd : s.policy = .custom data) :
    build S seeded k s = pure data := by
  unfold build
  rw [if_neg (by omega), hd]

/-- Parts that add up are made as they are: the second check passes. -/
theorem build_of_sum (ha : 0 ≤ s.amount) (hp : ∀ data, s.policy ≠ .custom data)
    (hsum : s.denominations.sum = s.amount) : build S seeded k s =
      if s.denominations.isEmpty then pure []
      else outputs S seeded k s.policy s.counter s.denominations := by
  unfold build
  rw [if_neg (by omega)]
  split
  · rename_i data hd
    exact absurd hd (hp data)
  dsimp only
  split
  · -- an amount without parts is zero, and has none
    rename_i hnil
    rw [List.isEmpty_iff.mp hnil, List.sum_nil] at hsum
    rw [← hsum, Amount.canonical_zero]
    rfl
  · rename_i hsome
    have hcheck : checkSum s.denominations s.amount = .ok () := if_pos hsum
    rw [hcheck]
    change (if s.denominations.isEmpty then pure [] else
      outputs S seeded k s.policy s.counter s.denominations) = _
    rw [if_neg hsome]

/-- A group that has passed its checks and has its counters is built. -/
theorem build_avoids (he : ¬ S.Unblindable e) (hs : s.Buildable seeded) (hc : s.countersNeeded = 0) :
    (build S seeded k s).Avoids e := by
  rcases Int.lt_or_le s.amount 0 with hneg | ha
  · unfold build
    rw [if_pos hneg]
    exact avoids_asked.bind fun _ => avoids_pure []
  by_cases hd : ∃ data, s.policy = .custom data
  · obtain ⟨data, hd⟩ := hd
    rw [build_of_custom ha hd]
    exact avoids_pure data
  · have hp : ∀ data, s.policy ≠ .custom data := fun data h => hd ⟨data, h⟩
    rw [build_of_sum ha hp (hs.sum hp)]
    split
    · exact avoids_pure []
    · rename_i hsome
      exact outputs_avoids he hs.check (counter_isSome hc (by simpa using hsome)) _

/-! ## Counters -/

section Assigned

variable {keyset : Json} {specs specs' : List OutputSpec} {own : Option Listener}
  {used : Option Reservation} {tr : List Exchange}

theorem slices_supplied (cursor : Int) (specs : List OutputSpec) :
    ∀ s ∈ slices cursor specs, s.countersNeeded = 0 := by
  induction specs generalizing cursor with
  | nil => simp [slices]
  | cons s rest ih =>
    unfold slices
    split
    · rename_i hnone
      exact List.forall_mem_cons.mpr ⟨hnone, ih _⟩
    · exact List.forall_mem_cons.mpr ⟨by simp [OutputSpec.countersNeeded], ih _⟩

theorem assign_supplied (h : (assign keyset specs own).Yields tr (.ok (specs', used))) :
    ∀ s ∈ specs', s.countersNeeded = 0 := by
  obtain ⟨hnone, rfl⟩ | ⟨cursor, rfl⟩ := assign_inv h
  · intro s hs
    exact List.sum_eq_zero_iff_forall_eq_nat.mp hnone _ (List.mem_map_of_mem hs)
  · exact slices_supplied cursor specs

theorem assign_buildable (hs : ∀ s ∈ specs, s.Buildable seeded)
    (h : (assign keyset specs own).Yields tr (.ok (specs', used))) :
    ∀ s ∈ specs', s.Buildable seeded := by
  have hspecs := assign_spec h
  clear h
  induction hspecs with
  | nil => simp
  | cons hs' _ ih =>
    obtain ⟨hs, hrest⟩ := List.forall_mem_cons.mp hs
    obtain ⟨c, rfl⟩ := hs'
    exact List.forall_mem_cons.mpr ⟨⟨hs.check, hs.sum⟩, ih hrest⟩

/-- Nothing but the counter source can refuse to reserve counters. -/
theorem assign_avoids (keyset : Json) (specs : List OutputSpec) (own : Option Listener) :
    (assign keyset specs own).Avoids e := by
  unfold assign
  dsimp only
  split
  · exact avoids_pure _
  · have hreserve : (reserve keyset (countersNeeded specs)).Avoids e :=
      fun _ hr => Outcome.ne_error_of_failure? hr
    refine hreserve.bind fun block => avoids_asked.bind fun _ => ?_
    exact (avoids_announce ..).bind fun _ => avoids_pure _

/-- Groups that have passed their checks are built once they have been assigned counters. -/
theorem groups_avoid (he : ¬ S.Unblindable e) (hs : ∀ s ∈ specs, s.Buildable seeded)
    (h : (assign keyset specs own).Yields tr (.ok (specs', used))) :
    (specs'.mapM (build S seeded k)).Avoids e :=
  avoids_mapM fun s hmem => build_avoids he (assign_buildable hs h s hmem) (assign_supplied h s hmem)

end Assigned

theorem finish_avoids (he : ¬ S.Unblindable e) (hs : s.Buildable seeded) (own : Option Listener) :
    (finish S seeded k s own).Avoids e := by
  refine (assign_avoids ..).bind_of_yields fun tr r hr => ?_
  exact (groups_avoid he (List.forall_mem_singleton.mpr hs) hr).bind fun _ => avoids_pure _

/-! ## Who has passed the checks -/

theorem buildable_of_configure {settings : Settings.Output} {r : Request}
    (hr : 0 ≤ r.amount ∨ r.policy.isOpen = false)
    (h : configure settings seeded k r = .ok s) : s.Buildable seeded := by
  obtain ⟨data, hd, -, -, rfl⟩ | ⟨hp, hcheck, parts, fee, hparts, -, rfl⟩ := configure_inv h
  · exact ⟨by rw [hd]; rfl, fun hp => absurd hd (hp data)⟩
  · have hsum := denominations_sum (hr.imp_right (Policy.denominations_ne_nil hp)) hparts
    exact ⟨hcheck, fun _ => by rw [List.sum_append, hsum]⟩

/-- Blanks are worth nothing, as their parts are. -/
theorem blanks_careful (he : e.Validation) (policy : Policy) (count : Int) (own : Option Listener) :
    (blanks S seeded k policy count own).Careful e := by
  unfold blanks
  split
  · exact careful_fail _
  split
  · exact careful_pure _
  · refine careful_lift_bind fun _ hcheck => ?_
    exact (finish_avoids he.refusal.not_unblindable ⟨hcheck, fun _ => by simp⟩ own).careful

end Plan

end Ecash
