import Ecash.Proofs.Blinding
import Ecash.Proofs.Plan.Buildable
import Ecash.Proofs.Program.Passive
import Ecash.World

/-!
# Parts from the request to the outputs

The parts of a configured group add up to its amount, and those that the caller asked
for come first, as they are (`configure_exact`). Counters are assigned to a group in its
place among others (`assign_getElem?`). Then it is built with one output for each part,
unless the seed or a factory withholds one or a secret cannot be blinded (`build_delivers`).
The checks that building repeats do not refuse what was configured.
-/
namespace Ecash

open Program

/-- Of the commands that make outputs, only an index of the seed and a factory can fail. -/
theorem Command.Making.failure {x : Exchange} {e : Failure} (hx : x.command.Making)
    (h : x.failure? = some e) : (∃ keyset counter use, x = ⟨.derive keyset counter use, .error e⟩) ∨
      ∃ number amount keyset, x = ⟨.produce number amount keyset, .error e⟩ := by
  obtain ⟨c, a⟩ := x
  have hanswer {α : Type} {r : Outcome α} (hr : r.failure? = some e) : r = .error e := by
    cases r with
    | ok a => cases hr
    | error e' => rw [Option.some.inj hr]
  cases c with
  | derive keyset counter use =>
    obtain rfl : a = .error e := hanswer h
    exact .inl ⟨keyset, counter, use, rfl⟩
  | produce number amount keyset =>
    obtain rfl : a = .error e := hanswer h
    exact .inr ⟨number, amount, keyset, rfl⟩
  | freshSecret | freshFactor | warn => cases h
  | _ => cases hx

namespace Plan

variable {S : Suite} {settings : Settings.Output} {seeded : Bool} {k : Keyset} {r : Request}
  {s : OutputSpec} {parts : List Int}

/-! ## Configured parts -/

/-- Denominations that are asked for are accepted if they add up, and taken as they are. -/
theorem denominations_of_asked {target : Nat} {amount : Int} {asked held : List Int}
    (hne : asked ≠ []) (h : denominations k target amount asked held = .ok parts) :
    asked.sum = amount ∧ parts = asked := by
  have hsome : (!asked.isEmpty) = true := by simpa using hne
  unfold denominations at h
  rw [if_pos hsome] at h
  obtain ⟨_, hsum, h⟩ := Outcome.bind_ok_iff.mp h
  cases h
  exact ⟨checkSum_ok hsum, rfl⟩

/-- The parts of a group, given what was asked for. -/
structure Exact (r : Request) (s : OutputSpec) : Prop where
  policy : s.policy = r.policy
  amount : r.includeFees = false → s.amount = r.amount
  sum : (∀ data, r.policy ≠ .custom data) → s.denominations.sum = s.amount
  front : r.policy.denominations ≠ [] →
    r.policy.denominations.sum = r.amount ∧ r.policy.denominations <+: s.denominations
  custom : ∀ data, r.policy = .custom data → s.amount = r.amount ∧ Output.total data = r.amount

theorem configure_exact (ha : 0 ≤ r.amount) (h : configure settings seeded k r = .ok s) :
    Exact r s := by
  have hspec := configure_spec h
  refine ⟨hspec.policy, hspec.exact, fun hp => ?_, fun hne => ?_, fun data hd => ?_⟩
  · exact (buildable_of_configure (.inl ha) h).sum fun data => hspec.policy ▸ hp data
  · obtain ⟨data, hd, -⟩ | ⟨-, -, parts, fee, hparts, -, rfl⟩ := configure_inv h
    · -- finished outputs come without denominations
      rw [hd] at hne
      exact absurd rfl hne
    · obtain ⟨hsum, rfl⟩ := denominations_of_asked hne hparts
      exact ⟨hsum, List.prefix_append _ _⟩
  · obtain ⟨hfees, htotal⟩ := hspec.custom data hd
    exact ⟨hspec.exact hfees, htotal⟩

/-- What is added for fees is not negative. -/
theorem Configured.amount_le (h : Configured k r s) : r.amount ≤ s.amount := by
  cases hf : r.includeFees with
  | true =>
    have hfees := h.fees hf
    have hpos := Fee.forInputs_nonneg s.denominations.length k.inputFeePpk
    omega
  | false => exact (h.exact hf).ge

/-! ## Counters -/

/-- A group keeps its place and all but its counter, and waits no longer. -/
theorem assign_getElem? {keyset : Json} {specs specs' : List OutputSpec} {own : Option Listener}
    {used : Option Reservation} {tr : List Exchange} {i : Nat} (hi : specs[i]? = some s)
    (h : (assign keyset specs own).Yields tr (.ok (specs', used))) :
    ∃ c, specs'[i]? = some { s with counter := c } ∧
      OutputSpec.countersNeeded { s with counter := c } = 0 := by
  obtain ⟨hlength, hspecs⟩ := List.forall₂_iff_get.mp (assign_spec h)
  obtain ⟨hlt, rfl⟩ := List.getElem?_eq_some_iff.mp hi
  obtain ⟨c, hc⟩ := hspecs i hlt (hlength ▸ hlt)
  have hc : specs'[i]? = some { specs[i] with counter := c } :=
    List.getElem?_eq_some_iff.mpr ⟨hlength ▸ hlt, hc⟩
  exact ⟨c, hc, assign_supplied h _ (List.mem_of_getElem? hc)⟩

/-! ## Outputs -/

/-- Building ends with an output for each part. Else the seed or a factory has
been asked for an output and has failed, or a secret could not be blinded, which is no
refusal of the wallet's. -/
def Delivers (S : Suite) (parts : List Int) (history : List Exchange)
    (r : Outcome (List Output)) : Prop :=
  (∃ os, r = .ok os ∧ os.map (·.message.amount) = parts) ∨
    ∃ e, r = .error e ∧ ((∃ keyset counter use, ⟨.derive keyset counter use, .error e⟩ ∈ history) ∨
      (∃ number amount keyset, ⟨.produce number amount keyset, .error e⟩ ∈ history) ∨
      S.Unblindable e ∧ ¬ e.Refusal)

theorem build_delivers {σ : Type} (handle : (c : Command) → σ → c.Answer × σ) (st : σ)
    (hs : s.Buildable seeded) (ha : 0 ≤ s.amount) (hp : ∀ data, s.policy ≠ .custom data)
    (hc : s.countersNeeded = 0)
    (hm : ∀ x ∈ (build S seeded k s).history handle st, x.HonoursAmount) :
    Delivers S s.denominations ((build S seeded k s).history handle st)
      ((build S seeded k s).run handle st).1 := by
  have hrun := yields_run handle (build S seeded k s) st
  have hmaking := (only_build S seeded k s).history hrun
  cases hr : ((build S seeded k s).run handle st).1 with
  | ok os =>
    rw [hr] at hrun
    nth_rewrite 1 [build_of_sum ha hp (hs.sum hp)] at hrun
    exact .inl ⟨os, rfl, amounts_of_source hm (parts_source hp hrun)⟩
  | error e =>
    refine .inr ⟨e, rfl, ?_⟩
    by_cases he : S.Unblindable e
    · exact .inr (.inr ⟨he, fun hrefusal => hrefusal.not_unblindable he⟩)
    -- a group that has passed its checks avoids all other failures but those of its answers
    obtain ⟨x, hx, hfails⟩ :
        ∃ x ∈ (build S seeded k s).history handle st, x.failure? = some e := by
      by_contra hnone
      exact (build_avoids he hs hc).run (fun x hx hfails => hnone ⟨x, hx, hfails⟩) hr
    obtain ⟨keyset, counter, use, rfl⟩ | ⟨number, amount, keyset, rfl⟩ :=
      (hmaking x hx).failure hfails
    · exact .inl ⟨keyset, counter, use, hx⟩
    · exact .inr (.inl ⟨number, amount, keyset, hx⟩)

/-- For every amount that is not negative, every keyset, every policy and all amounts that
the wallet holds, with fees and without: the parts of a configured group add up to its
amount, which is the amount asked for unless fees are included; denominations that the
caller asks for are accepted only if they add up, and come first. Whatever groups it is
assigned counters with, in whatever place, it is then built from these parts, in their
order, if factories honour the amounts that they are asked for; finished outputs are built
as they are, and total the amount. -/
theorem outputs_carry_parts (S : Suite) (ha : 0 ≤ r.amount)
    (h : configure settings seeded k r = .ok s) :
    Exact r s ∧ ∀ (specs specs' : List OutputSpec) (i : Nat) own used tr, specs[i]? = some s →
      (assign k.id specs own).Yields tr (.ok (specs', used)) →
        ∃ s', specs'[i]? = some s' ∧
          ∀ {σ : Type} (handle : (c : Command) → σ → c.Answer × σ) (st : σ),
          (∀ data, r.policy = .custom data →
            (build S seeded k s').run handle st = (.ok data, st)) ∧
          ((∀ data, r.policy ≠ .custom data) →
            (∀ x ∈ (build S seeded k s').history handle st, x.HonoursAmount) →
            Delivers S s.denominations ((build S seeded k s').history handle st)
              ((build S seeded k s').run handle st).1) := by
  have hexact := configure_exact ha h
  have hbuildable := buildable_of_configure (.inl ha) h
  have hs : 0 ≤ s.amount := ha.trans (configure_spec h).amount_le
  refine ⟨hexact, fun specs specs' i own used tr hi hassign => ?_⟩
  obtain ⟨c, hc, hsupplied⟩ := assign_getElem? hi hassign
  refine ⟨_, hc, fun handle st => ⟨fun data hd => ?_, fun hp hm => ?_⟩⟩
  · have hpolicy : s.policy = .custom data := hexact.policy.trans hd
    rw [build_of_custom (s := { s with counter := c }) hs hpolicy]
    rfl
  · have hp : ∀ data, s.policy ≠ .custom data := fun data hd => hp data (hexact.policy ▸ hd)
    exact build_delivers handle st ⟨hbuildable.check, hbuildable.sum⟩ hs hp hsupplied hm

/-- Keys for one and for two, of a keyset for which the seed has secrets. -/
def residueKeys : Keyset := ⟨.str "01", .str "sat", .bool true, 0, .null, [(1, .null), (2, .null)]⟩

/-- Three in the parts two and one. -/
def twoAndOne : OutputSpec := ⟨3, .deterministic 0 [2, 1], [2, 1], none⟩

/-- A group of three waits for counters after a group of one, and is built from the indices
one and two. -/
theorem outputs_carry_parts_twoAndOne :
    let world := World.fresh (some []) (.fresh [])
    let built := build .residues true residueKeys { twoAndOne with counter := some 1 }
    let ended := (built.run (World.handle .residues) world).1
    Exact ⟨3, .deterministic 0 [2, 1], false, []⟩ twoAndOne ∧
      Delivers .residues [2, 1] (built.history (World.handle .residues) world) ended ∧
      (∃ os, ended = .ok os ∧ os.map (·.message.amount) = [2, 1]) := by
  intro world built ended
  let one : OutputSpec := ⟨1, .deterministic 0 [1], [1], none⟩
  let assigned := assign residueKeys.id [one, twoAndOne] none
  have hconfigured : configure .standard true residueKeys ⟨3, .deterministic 0 [2, 1], false, []⟩ =
      .ok twoAndOne := rfl
  have hrun : (assigned.run (World.handle .residues) world).1 =
      .ok ([{ one with counter := some 0 }, { twoAndOne with counter := some 1 }],
        some ⟨.str "01", ⟨0, 3⟩⟩) := by decide +kernel
  have hassigned := yields_run (World.handle .residues) assigned world
  rw [hrun] at hassigned
  obtain ⟨hexact, hgroups⟩ := outputs_carry_parts .residues (by decide) hconfigured
  obtain ⟨s', hs', hbuilt⟩ := hgroups _ _ 1 none _ _ rfl hassigned
  obtain rfl : { twoAndOne with counter := some 1 } = s' := Option.some.inj hs'
  have hmade : ∀ x ∈ built.history (World.handle .residues) world, x.MadeAsAsked := by decide +kernel
  have hdelivers := (hbuilt (World.handle .residues) world).2 nofun fun x hx =>
    (hmade x hx).honoursAmount
  have hshown : ended.toOption.map (·.map (·.message.amount)) = some [2, 1] := by decide +kernel
  obtain ⟨os, hos, hamounts⟩ := Option.map_eq_some_iff.mp hshown
  exact ⟨hexact, hdelivers, os, Outcome.toOption_eq_some_iff.mp hos, hamounts⟩

end Plan

end Ecash
