import Ecash.Plan.Outputs
import Ecash.Proofs.Amount
import Ecash.Proofs.Fee
import Ecash.Proofs.Program.Run

/-!
# What groups of outputs come to

A configured group is worth the amount asked for and, with fees, enough beyond
it to spend the group (`configure_spec`). Assigning counters changes nothing
else (`assign_spec`), and the outputs that are built fill the group (`Filled`): they are worth
what it is and belong to its keyset (`Filled.made`), provided that the caller's factories make
what they are asked for (`Exchange.MadeAsAsked`).
-/
namespace Ecash

/-- A factory's output has the amount and keyset that it was asked for. -/
def Exchange.MadeAsAsked : Exchange → Prop
  | ⟨.produce _ amount k, .ok o⟩ => o.message.amount = amount ∧ o.message.keyset = k.id
  | _ => True

instance : DecidablePred Exchange.MadeAsAsked
  | ⟨.produce _ amount k, .ok o⟩ =>
    inferInstanceAs (Decidable (o.message.amount = amount ∧ o.message.keyset = k.id))
  | ⟨.produce .., .error _⟩ | ⟨.shuffle _, _⟩ | ⟨.now, _⟩ | ⟨.freshSecret, _⟩ | ⟨.freshFactor, _⟩
  | ⟨.derive .., _⟩ | ⟨.reserve .., _⟩ | ⟨.advance .., _⟩ | ⟨.listeners _, _⟩ | ⟨.tell .., _⟩
  | ⟨.warn _, _⟩ | ⟨.record _, _⟩ | ⟨.call _, _⟩ => isTrue trivial

/-- A factory's output has the amount that it was asked for, of whatever keyset it is. -/
def Exchange.HonoursAmount : Exchange → Prop
  | ⟨.produce _ amount _, .ok o⟩ => o.message.amount = amount
  | _ => True

theorem Exchange.MadeAsAsked.honoursAmount {x : Exchange} (h : x.MadeAsAsked) : x.HonoursAmount := by
  obtain ⟨c, a⟩ := x
  cases c with
  | produce number amount k =>
    cases a with
    | ok o => exact h.1
    | error e => trivial
  | _ => trivial

namespace Plan

variable {k : Keyset} {s : OutputSpec} {parts : List Int} {tr : List Exchange}

/-! ## Configured groups -/

theorem checkSum_ok {amount : Int} (h : checkSum parts amount = .ok ()) : parts.sum = amount := by
  unfold checkSum at h
  split at h
  · assumption
  · exact absurd h Outcome.refuse_ne_ok

/-- Raising the fee ends with a split of a fee that pays for `n` inputs and for its own parts. -/
theorem raiseFee_inv {keys : List Int} {ppk : Int} {n rounds : Nat} {fee : Int}
    (h : raiseFee keys ppk n rounds fee = .ok parts) :
    ∃ f, fee ≤ f ∧ Amount.canonical f keys = .ok parts ∧ Fee.forInputs (n + parts.length) ppk ≤ f := by
  induction rounds generalizing fee with
  | zero =>
    unfold raiseFee at h
    obtain ⟨ps, hps, h⟩ := Outcome.bind_ok_iff.mp h
    split at h
    · rename_i hpays
      cases h
      exact ⟨fee, Int.le_refl fee, hps, hpays⟩
    · exact absurd h Outcome.refuse_ne_ok
  | succ rounds ih =>
    unfold raiseFee at h
    obtain ⟨ps, hps, h⟩ := Outcome.bind_ok_iff.mp h
    split at h
    · rename_i hpays
      cases h
      exact ⟨fee, Int.le_refl fee, hps, hpays⟩
    · obtain ⟨f, hf, hparts, hpays⟩ := ih h
      exact ⟨f, by omega, hparts, hpays⟩

/-- Parts of a fee that is not negative. -/
theorem feeParts_inv {rounds n : Nat} (h : feeParts k rounds n = .ok parts) : ∃ f, 0 ≤ f ∧
    Amount.canonical f k.amounts = .ok parts ∧
    Fee.forInputs (n + parts.length) k.inputFeePpk ≤ f := by
  obtain ⟨f, hf, hparts, hpays⟩ := raiseFee_inv h
  exact ⟨f, (Fee.forInputs_nonneg _ _).trans hf, hparts, hpays⟩

theorem feeParts_spec {rounds n : Nat} (h : feeParts k rounds n = .ok parts) :
    Fee.forInputs (n + parts.length) k.inputFeePpk ≤ parts.sum := by
  obtain ⟨f, hf, hparts, hpays⟩ := feeParts_inv h
  rwa [Amount.canonical_sum hf hparts]

theorem denominations_sum {target : Nat} {amount : Int} {asked held : List Int}
    (ha : 0 ≤ amount ∨ asked ≠ []) (h : denominations k target amount asked held = .ok parts) :
    parts.sum = amount := by
  unfold denominations at h
  split at h
  · obtain ⟨_, hsum, h⟩ := Outcome.bind_ok_iff.mp h
    cases h
    exact checkSum_ok hsum
  · rename_i hasked
    have ha : 0 ≤ amount := ha.resolve_right (by simpa using hasked)
    split at h
    · exact Amount.canonical_sum ha h
    · exact Amount.keepAmounts_sum ha h

theorem denominations_ne_nil {target : Nat} {amount : Int} {asked held : List Int} (ha : 0 < amount)
    (h : denominations k target amount asked held = .ok parts) : parts ≠ [] :=
  Amount.ne_nil_of_sum ha (denominations_sum (.inl ha.le) h)

/-- What a group is worth: all that was asked for, and with fees what spending its
parts costs. -/
structure Configured (k : Keyset) (r : Request) (s : OutputSpec) : Prop where
  policy : s.policy = r.policy
  exact : r.includeFees = false → s.amount = r.amount
  fees : r.includeFees = true →
    r.amount + Fee.forInputs s.denominations.length k.inputFeePpk ≤ s.amount
  custom : ∀ data, r.policy = .custom data →
    r.includeFees = false ∧ Output.total data = r.amount
  parts : (∀ data, r.policy ≠ .custom data) → 0 < s.amount → s.denominations ≠ []

/-- Where a configured group comes from: the caller's own outputs, or parts of the
amount and of the fee. -/
theorem configure_inv {settings : Settings.Output} {seeded : Bool} {r : Request}
    (h : configure settings seeded k r = .ok s) :
    (∃ data, r.policy = .custom data ∧ r.includeFees = false ∧ Output.total data = r.amount ∧
      s = ⟨r.amount, r.policy, [], none⟩) ∨
    (∀ data, r.policy ≠ .custom data) ∧ r.policy.check seeded = .ok () ∧ ∃ parts fee,
      denominations k settings.denominationTarget r.amount r.policy.denominations r.held = .ok parts ∧
      (r.includeFees = true ∧ feeParts k settings.maxFeeRounds parts.length = .ok fee ∨
        r.includeFees = false ∧ fee = []) ∧
      s = ⟨r.amount + fee.sum, r.policy, parts ++ fee, r.policy.pinned?⟩ := by
  unfold configure at h
  split at h
  · rename_i data hd
    left
    split at h
    · exact absurd h Outcome.refuse_ne_ok
    rename_i hf
    split at h
    · exact absurd h Outcome.refuse_ne_ok
    rename_i ht
    cases h
    exact ⟨data, hd, Bool.eq_false_of_not_eq_true hf, by simpa using ht, rfl⟩
  · rename_i hp
    right
    obtain ⟨_, hcheck, h⟩ := Outcome.bind_ok_iff.mp h
    obtain ⟨parts, hparts, h⟩ := Outcome.bind_ok_iff.mp h
    refine ⟨hp, hcheck, parts, ?_⟩
    dsimp only at h
    split at h
    · rename_i hf
      obtain ⟨fee, hfee, h⟩ := Outcome.bind_ok_iff.mp h
      cases h
      exact ⟨fee, hparts, .inl ⟨hf, hfee⟩, rfl⟩
    · rename_i hf
      cases h
      exact ⟨[], hparts, .inr ⟨Bool.eq_false_of_not_eq_true hf, rfl⟩, rfl⟩

theorem configure_spec {settings : Settings.Output} {seeded : Bool} {r : Request}
    (h : configure settings seeded k r = .ok s) : Configured k r s := by
  obtain ⟨data, hd, hf, ht, rfl⟩ | ⟨hp, -, parts, fee, hparts, hfee, rfl⟩ := configure_inv h
  · refine ⟨rfl, fun _ => rfl, fun hi => absurd (hf.symm.trans hi) (by decide), fun data' hd' => ?_,
      fun hp => absurd hd (hp data)⟩
    obtain rfl : data = data' := Policy.custom.inj (hd.symm.trans hd')
    exact ⟨hf, ht⟩
  refine ⟨rfl, fun hi => ?_, fun hi => ?_, fun d hd => absurd hd (hp d), fun _ hpos hnil => ?_⟩
  · obtain ⟨hi', -⟩ | ⟨-, rfl⟩ := hfee
    · exact absurd (hi'.symm.trans hi) (by decide)
    · simp
  · obtain ⟨-, hfee⟩ | ⟨hi', -⟩ := hfee
    · have hle := feeParts_spec hfee
      rw [List.length_append]
      push_cast
      omega
    · exact absurd (hi'.symm.trans hi) (by decide)
  · obtain ⟨rfl, rfl⟩ := List.append_eq_nil_iff.mp hnil
    exact denominations_ne_nil (by simpa using hpos) hparts rfl

/-! ## Counters -/

theorem slices_spec (cursor : Int) (specs : List OutputSpec) :
    List.Forall₂ (fun s s' => ∃ c, s' = { s with counter := c }) specs (slices cursor specs) := by
  induction specs generalizing cursor with
  | nil => exact .nil
  | cons s rest ih =>
    unfold slices
    split
    · exact .cons ⟨s.counter, rfl⟩ (ih _)
    · exact .cons ⟨some cursor, rfl⟩ (ih _)

/-- Groups that wait for no counters are left alone; else all get their slices of a block. -/
theorem assign_inv {keyset : Json} {specs specs' : List OutputSpec} {own : Option Listener}
    {used : Option Reservation} (h : (assign keyset specs own).Yields tr (.ok (specs', used))) :
    countersNeeded specs = 0 ∧ specs' = specs ∨ ∃ cursor, specs' = slices cursor specs := by
  unfold assign at h
  dsimp only at h
  split at h
  · rename_i hnone
    obtain ⟨-, h⟩ := Program.yields_pure_ok.mp h
    cases h
    exact .inl ⟨hnone, rfl⟩
  · simp only [Program.yields_bind_ok] at h
    obtain ⟨block, _, _, -, -, _, _, _, -, -, _, _, _, -, -, h⟩ := h
    obtain ⟨-, h⟩ := Program.yields_pure_ok.mp h
    cases h
    exact .inr ⟨block.start, rfl⟩

/-- Assigning changes nothing but counters. -/
theorem assign_spec {keyset : Json} {specs specs' : List OutputSpec} {own : Option Listener}
    {used : Option Reservation} (h : (assign keyset specs own).Yields tr (.ok (specs', used))) :
    List.Forall₂ (fun s s' => ∃ c, s' = { s with counter := c }) specs specs' := by
  obtain ⟨-, rfl⟩ | ⟨cursor, rfl⟩ := assign_inv h
  · exact List.forall₂_same.mpr fun s _ => ⟨s.counter, rfl⟩
  · exact slices_spec cursor specs

/-! ## Built groups -/

/-- One output of the keyset for each part. -/
def Made (k : Keyset) : List Int → List Output → Prop :=
  List.Forall₂ fun amount o => o.message.amount = amount ∧ o.message.keyset = k.id

theorem Made.total {os : List Output} (h : Made k parts os) : Output.total os = parts.sum := by
  induction h with
  | nil => rfl
  | cons ho _ ih =>
    unfold Output.total at ih ⊢
    rw [List.map_cons, List.sum_cons, List.sum_cons, ho.1, ih]

theorem Made.keyset {os : List Output} (h : Made k parts os) : ∀ o ∈ os, o.message.keyset = k.id := by
  induction h with
  | nil => simp
  | cons ho _ ih => exact List.forall_mem_cons.mpr ⟨ho.2, ih⟩

variable {S : Suite} {o : Output} {amount : Int} {keyset : Json}

theorem ofSecret_spec {secret : Bytes} {factor : Int}
    (h : Output.ofSecret S amount keyset secret factor = .ok o) :
    o.message.amount = amount ∧ o.message.keyset = keyset := by
  obtain ⟨_, -, h⟩ := Outcome.bind_ok_iff.mp h
  obtain ⟨_, -, h⟩ := Outcome.bind_ok_iff.mp h
  cases h
  exact ⟨rfl, rfl⟩

/-- Where an output for an amount comes from: from a secret, or from a factory of the
caller. -/
def Source (S : Suite) (k : Keyset) (tr : List Exchange) (amount : Int) (o : Output) : Prop :=
  (∃ secret factor, Output.ofSecret S amount k.id secret factor = .ok o) ∨
    ∃ number, (⟨.produce number amount k, .ok o⟩ : Exchange) ∈ tr

theorem Source.mono {t : List Exchange} (h : Source S k t amount o) (ht : t ⊆ tr) :
    Source S k tr amount o :=
  h.imp_right fun ⟨number, hx⟩ => ⟨number, ht hx⟩

/-- An output is what was asked for, wherever it comes from. -/
theorem made_of_source {os : List Output} (hm : ∀ x ∈ tr, x.MadeAsAsked)
    (h : List.Forall₂ (Source S k tr) parts os) : Made k parts os := by
  refine h.imp ?_
  rintro amount o (⟨_, _, ho⟩ | ⟨_, hx⟩)
  · exact ofSecret_spec ho
  · exact hm _ hx

/-- Amounts are what was asked for if the factories honour them. -/
theorem amounts_of_source {os : List Output} (hm : ∀ x ∈ tr, x.HonoursAmount)
    (h : List.Forall₂ (Source S k tr) parts os) : os.map (·.message.amount) = parts := by
  induction h with
  | nil => rfl
  | cons ho _ ih =>
    rw [List.map_cons, ih]
    obtain ⟨_, _, ho⟩ | ⟨_, hx⟩ := ho
    · rw [(ofSecret_spec ho).1]
    · rw [hm _ hx]

theorem blinded_source {secret : String}
    (h : (blinded S k.id secret amount).Yields tr (.ok o)) : Source S k tr amount o := by
  obtain ⟨factor, _, _, -, -, h⟩ := Program.yields_bind_ok.mp h
  exact .inl ⟨_, _, (Program.yields_lift.mp h).2⟩

theorem deriveAll_source {use : IndexUse} {start : Int} {os : List Output}
    (h : (deriveAll S k.id use start parts).Yields tr (.ok os)) :
    List.Forall₂ (Source S k tr) parts os := by
  induction parts generalizing start tr os with
  | nil =>
    obtain ⟨-, rfl⟩ := Program.yields_pure_ok.mp h
    exact .nil
  | cons amount rest ih =>
    obtain ⟨o, t₁, _, rfl, ho, h⟩ := Program.yields_bind_ok.mp h
    obtain ⟨os, hos, rfl⟩ := Program.yields_bind_pure_ok.mp h
    obtain ⟨_, _, _, -, -, ho⟩ := Program.yields_bind_ok.mp ho
    refine .cons (.inl ⟨_, _, (Program.yields_lift.mp ho).2⟩) ((ih hos).imp fun _ _ hs => hs.mono ?_)
    exact List.subset_append_right _ _

theorem outputs_source {seeded : Bool} {policy : Policy} {counter : Option Int} {os : List Output}
    (hp : ∀ data, policy ≠ .custom data)
    (h : (outputs S seeded k policy counter parts).Yields tr (.ok os)) :
    List.Forall₂ (Source S k tr) parts os := by
  cases policy with
  | random ds =>
    refine (Program.forall₂_of_yields_mapM h).imp ?_
    rintro amount o ⟨t, ht, ho⟩
    obtain ⟨_, _, t', rfl, -, ho⟩ := Program.yields_bind_ok.mp ho
    exact (blinded_source ho).mono fun x hx => ht.subset (List.mem_append_right _ hx)
  | locked options ds =>
    refine (Program.forall₂_of_yields_mapM h).imp ?_
    rintro amount o ⟨t, ht, ho⟩
    unfold locked at ho
    split at ho
    · exact absurd ho Program.not_yields_fail_ok
    · obtain ⟨_, _, t', rfl, -, ho⟩ := Program.yields_bind_ok.mp ho
      exact (blinded_source ho).mono fun x hx => ht.subset (List.mem_append_right _ hx)
  | factory number ds =>
    refine (Program.forall₂_of_yields_mapM h).imp ?_
    rintro amount o ⟨t, ht, ho⟩
    obtain ⟨a, _, rfl, ha⟩ := Program.yields_ask.mp ho
    obtain ⟨rfl, rfl⟩ := Program.yields_done.mp ha
    exact .inr ⟨number, ht.subset List.mem_cons_self⟩
  | deterministic n ds =>
    cases counter with
    | none => exact absurd h Program.not_yields_fail_ok
    | some start =>
      unfold outputs at h
      dsimp only at h
      split at h
      · exact deriveAll_source h
      · exact absurd h Program.not_yields_fail_ok
  | custom data => exact absurd rfl (hp data)

/-- Without parts nothing is asked for. -/
theorem parts_source {seeded : Bool} {policy : Policy} {counter : Option Int} {os : List Output}
    (hp : ∀ data, policy ≠ .custom data)
    (h : (if parts.isEmpty then pure [] else outputs S seeded k policy counter parts : Program _).Yields
      tr (.ok os)) : List.Forall₂ (Source S k tr) parts os := by
  split at h
  · rename_i he
    obtain ⟨-, rfl⟩ := Program.yields_pure_ok.mp h
    rw [List.isEmpty_iff.mp he]
    exact .nil
  · exact outputs_source hp h

/-- The outputs of a group: none for a negative amount, the caller's own, or one for each part.
The parts add up to the group's amount, and are its denominations if it has some. -/
inductive Filled (S : Suite) (k : Keyset) (s : OutputSpec) (tr : List Exchange) : List Output → Prop where
  | negative (ha : s.amount < 0) : Filled S k s tr []
  | custom {os : List Output} (hp : s.policy = .custom os) : Filled S k s tr os
  | parts {parts : List Int} {os : List Output} (hp : ∀ data, s.policy ≠ .custom data)
      (hs : List.Forall₂ (Source S k tr) parts os) (hsum : parts.sum = s.amount)
      (hall : s.denominations ≠ [] → parts = s.denominations) : Filled S k s tr os

theorem Filled.mono {t : List Exchange} {os : List Output} (h : Filled S k s t os) (ht : t ⊆ tr) :
    Filled S k s tr os := by
  cases h with
  | negative ha => exact .negative ha
  | custom hp => exact .custom hp
  | parts hp hs hsum hall => exact .parts hp (hs.imp fun _ _ hs => hs.mono ht) hsum hall

/-- What is built fills the group, from whatever counter it was assigned. -/
theorem build_filled {seeded : Bool} {c : Option Int} {os : List Output}
    (h : (build S seeded k { s with counter := c }).Yields tr (.ok os)) : Filled S k s tr os := by
  unfold build at h
  dsimp only at h
  split at h
  · rename_i ha
    obtain ⟨_, _, _, -, -, h⟩ := Program.yields_bind_ok.mp h
    obtain ⟨-, rfl⟩ := Program.yields_pure_ok.mp h
    exact .negative ha
  rename_i ha
  split at h
  · rename_i data hd
    obtain ⟨-, rfl⟩ := Program.yields_pure_ok.mp h
    exact .custom hd
  rename_i hp
  split at h
  · rename_i hd
    obtain ⟨ps, hps, h⟩ := Program.yields_lift_bind_ok.mp h
    refine .parts hp (parts_source hp h) (Amount.canonical_sum (not_lt.mp ha) hps) fun hne => ?_
    exact absurd (List.isEmpty_iff.mp hd) hne
  · obtain ⟨_, t₁, t₂, rfl, hsum, h⟩ := Program.yields_bind_ok.mp h
    obtain ⟨_, t₂, t₃, rfl, hps, h⟩ := Program.yields_bind_ok.mp h
    obtain ⟨rfl, rfl⟩ := Program.yields_pure_ok.mp hps
    refine .parts hp ((parts_source hp h).imp fun _ _ hs => hs.mono ?_)
      (checkSum_ok (Program.yields_lift.mp hsum).2) fun _ => rfl
    exact fun x hx => List.mem_append_right _ (List.mem_append_right _ hx)

/-- Groups that are assigned counters together are filled one after the other. -/
theorem groups_filled {seeded : Bool} {keyset : Json} {specs specs' : List OutputSpec}
    {own : Option Listener} {used : Option Reservation} {oss : List (List Output)}
    {t₁ t₂ : List Exchange} (ha : (assign keyset specs own).Yields t₁ (.ok (specs', used)))
    (hb : (specs'.mapM (build S seeded k)).Yields t₂ (.ok oss)) :
    List.Forall₂ (Filled S k · t₂) specs oss := by
  have hspecs := assign_spec ha
  have houtputs := Program.forall₂_of_yields_mapM hb
  clear ha hb
  induction hspecs generalizing oss with
  | nil =>
    cases houtputs
    exact .nil
  | cons hs _ ih =>
    obtain ⟨c, rfl⟩ := hs
    cases houtputs with
    | cons ho houtputs =>
      obtain ⟨t, ht, ho⟩ := ho
      exact .cons ((build_filled ho).mono ht.subset) (ih houtputs)

/-- So is a group that is finished on its own. -/
theorem finish_filled {seeded : Bool} {own : Option Listener} {os : List Output}
    (h : (finish S seeded k s own).Yields tr (.ok os)) : Filled S k s tr os := by
  obtain ⟨⟨specs, used⟩, t₁, t₂, rfl, hassign, h⟩ := Program.yields_bind_ok.mp h
  obtain ⟨oss, hbuild, rfl⟩ := Program.yields_bind_pure_ok.mp h
  have hgroups := groups_filled hassign hbuild
  simp only [List.forall₂_cons_left_iff, List.forall₂_nil_left_iff] at hgroups
  obtain ⟨os, _, hos, rfl, rfl⟩ := hgroups
  rw [List.flatten_cons, List.flatten_nil, List.append_nil]
  exact hos.mono (List.subset_append_right _ _)

section Filled

variable {os : List Output} (h : Filled S k s tr os) (ha : 0 ≤ s.amount)
include h ha

/-- A group that is not negative has the caller's own outputs, or outputs of the keyset for
parts of its amount. -/
theorem Filled.made (hm : ∀ x ∈ tr, x.MadeAsAsked) :
    s.policy = .custom os ∨ (∀ data, s.policy ≠ .custom data) ∧ ∃ parts, Made k parts os ∧
      parts.sum = s.amount ∧ (s.denominations ≠ [] → parts = s.denominations) := by
  cases h with
  | negative hlt => exact absurd hlt (not_lt.mpr ha)
  | custom hp => exact .inl hp
  | parts hp hs hsum hall => exact .inr ⟨hp, _, made_of_source hm hs, hsum, hall⟩

/-- The outputs of a configured group are worth the group. -/
theorem Filled.total {r : Request} (hs : Configured k r s) (hm : ∀ x ∈ tr, x.MadeAsAsked) :
    Output.total os = s.amount := by
  obtain hp | ⟨-, parts, hmade, hsum, -⟩ := h.made ha hm
  · have hp' : r.policy = .custom os := hs.policy ▸ hp
    obtain ⟨hf, ht⟩ := hs.custom os hp'
    rw [ht, hs.exact hf]
  · rw [hmade.total, hsum]

end Filled

end Plan

end Ecash
