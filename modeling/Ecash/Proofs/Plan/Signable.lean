import Ecash.Proofs.Amount.TopUp
import Ecash.Proofs.Plan.Buildable

/-!
# Parts that a mint can sign

A mint may publish keys for any numbers, also for zero and for negative ones. Wherever the
wallet chooses the parts of a group, the keyset has a key for each of them. A split and the
parts of a fee are positive; parts that top the wallet up need not be, as nothing keeps it
from being short of amounts that are worth nothing (`parts_signable`).
-/
namespace Ecash

/-- The amounts of a keyset are those that it has a key for. -/
theorem Keyset.mem_amounts {k : Keyset} {a : Int} : a ∈ k.amounts ↔ ∃ key, k.key? a = some key := by
  unfold Keyset.amounts Keyset.key?
  rw [(List.mergeSort_perm _ _).mem_iff, ← Option.isSome_iff_exists, List.lookup_isSome_iff, List.mem_map]
  simp only [beq_iff_eq]
  exact exists_congr fun p => and_congr_right fun _ => eq_comm

theorem Policy.denominations_of_isOpen {p : Policy} (h : p.isOpen = true) : p.denominations = [] := by
  cases p with
  | custom data => cases h
  | _ => exact List.isEmpty_iff.mp h

namespace Plan

variable {settings : Settings.Output} {seeded : Bool} {k : Keyset} {r : Request} {s : OutputSpec}
  {parts : List Int} {a : Int}

/-- The parts of a fee are positive amounts of the keyset. -/
theorem mem_feeParts {rounds n : Nat} (h : feeParts k rounds n = .ok parts) (ha : a ∈ parts) :
    a ∈ k.amounts ∧ 0 < a := by
  obtain ⟨f, hf, hparts, -⟩ := feeParts_inv h
  exact Amount.mem_canonical hf hparts ha

/-- Denominations that are left to the wallet are amounts of the keyset. All are positive if the
wallet holds nothing or has enough of what is not. -/
theorem denominations_open {target : Nat} {amount : Int} {held : List Int} (hamount : 0 ≤ amount)
    (h : denominations k target amount [] held = .ok parts) : (∀ a ∈ parts, a ∈ k.amounts) ∧
      ((∀ a ∈ parts, 0 < a) ↔ held = [] ∨ ∀ a ∈ k.amounts, a ≤ 0 → target ≤ held.count a) := by
  unfold denominations at h
  rw [if_neg (by simp)] at h
  split at h
  · rename_i hnone
    exact ⟨fun a ha => (Amount.mem_canonical hamount h ha).1,
      iff_of_true (fun a ha => (Amount.mem_canonical hamount h ha).2) (.inl (List.isEmpty_iff.mp hnone))⟩
  · rename_i hheld
    refine ⟨fun a ha => (Amount.mem_keepAmounts hamount h ha).1, ?_⟩
    rw [Amount.keepAmounts_pos_iff hamount h]
    simpa using fun hnone => absurd (List.isEmpty_iff.mpr hnone) hheld

/-- For every keyset, every amount that is not negative, all amounts that the wallet holds, and
a policy that leaves the denominations to the wallet, with fees and without: the keyset has a
key for every part of a configured group. All parts are positive exactly when the wallet holds
nothing, or has already as many as it aims for of every amount of the keyset that is not positive. -/
theorem parts_signable (hamount : 0 ≤ r.amount) (hopen : r.policy.isOpen = true)
    (h : configure settings seeded k r = .ok s) :
    (∀ a ∈ s.denominations, ∃ key, k.key? a = some key) ∧
      ((∀ a ∈ s.denominations, 0 < a) ↔ r.held = [] ∨
        ∀ a ∈ k.amounts, a ≤ 0 → settings.denominationTarget ≤ r.held.count a) := by
  obtain ⟨data, hdata, -⟩ | ⟨-, -, parts, fee, hparts, hfee, rfl⟩ := configure_inv h
  · rw [hdata] at hopen
    cases hopen
  rw [Policy.denominations_of_isOpen hopen] at hparts
  obtain ⟨hmem, hpos⟩ := denominations_open hamount hparts
  have hfee (a : Int) (ha : a ∈ fee) : a ∈ k.amounts ∧ 0 < a := by
    obtain ⟨-, hfee⟩ | ⟨-, rfl⟩ := hfee
    · exact mem_feeParts hfee ha
    · cases ha
  simp only [← Keyset.mem_amounts, List.forall_mem_append]
  exact ⟨⟨hmem, fun a ha => (hfee a ha).1⟩,
    (and_iff_left fun a ha => (hfee a ha).2).trans (by exact_mod_cast hpos)⟩

/-- What a mint may publish: keys for minus one, zero, one and two. -/
def oddKeys : Json :=
  .obj [("id", .str "00ad268c4d1f5826"), ("input_fee_ppk", .int 100),
    ("keys", .obj [("-1", .str "a"), ("0", .str "b"), ("1", .str "c"), ("2", .str "d")])]

/-- The keyset as it is read. -/
def oddKeyset : Keyset :=
  ⟨.str "00ad268c4d1f5826", .str "sat", .bool true, 100, .null,
    [(-1, .str "a"), (0, .str "b"), (1, .str "c"), (2, .str "d")]⟩

theorem oddKeyset_ascending : Amount.ascending oddKeyset.amounts = [-1, 0, 1, 2] := by
  have hamounts : oddKeyset.amounts = [-1, 0, 1, 2] := Amount.Order.ascending.sort_eq (.refl _) (by decide)
  rw [hamounts]
  exact Amount.Order.ascending.sort_eq (.refl _) (by decide)

theorem canonical_oddKeyset : Amount.canonical 1 oddKeyset.amounts = .ok [1] := by
  have hdescending : Amount.descending oddKeyset.amounts = [2, 1, 0, -1] :=
    Amount.Order.descending.sort_eq ((List.mergeSort_perm _ _).trans (by decide)) (by decide)
  unfold Amount.canonical Amount.split
  rw [hdescending]
  exact congrArg Except.ok (Amount.Order.ascending.sort_eq (.refl _) (by decide))

/-- Three of minus one, three of zero and one of one are held. With the fee, three is made up of
four ones. -/
theorem parts_signable_stocked :
    let r : Request := ⟨3, .random [], true, [-1, -1, -1, 0, 0, 0, 1]⟩
    configure .standard false oddKeyset r = .ok ⟨4, .random [], [1, 1, 1, 1], none⟩ ∧
      ∀ a ∈ [1, 1, 1, 1], 0 < a ∧ ∃ key, oddKeyset.key? a = some key := by
  intro r
  have hparts : denominations oddKeyset 3 3 [] r.held = .ok [1, 1, 1] := by
    refine Amount.keepAmounts_ok_iff.mpr ⟨[1], ?_, ?_⟩
    · rw [oddKeyset_ascending]
      exact canonical_oddKeyset
    · rw [oddKeyset_ascending]
      exact (Amount.Order.ascending.sort_eq (.refl _) (by decide)).symm
  have hfee (rounds : Nat) : feeParts oddKeyset rounds 3 = .ok [1] := by
    unfold feeParts raiseFee
    exact Outcome.bind_ok_iff.mpr ⟨[1], canonical_oddKeyset, rfl⟩
  have h : configure .standard false oddKeyset r = .ok ⟨4, .random [], [1, 1, 1, 1], none⟩ :=
    Outcome.bind_ok_iff.mpr ⟨(), rfl, Outcome.bind_ok_iff.mpr ⟨_, hparts,
      Outcome.bind_ok_iff.mpr ⟨_, hfee _, rfl⟩⟩⟩
  obtain ⟨hkeys, hpos⟩ := parts_signable (by decide) rfl h
  have henough : ∀ a ∈ oddKeyset.amounts, a ≤ 0 →
      (Settings.Output.standard.denominationTarget : Int) ≤ r.held.count a := by
    intro a ha
    rw [← Amount.mem_ascending, oddKeyset_ascending] at ha
    revert a
    decide
  exact ⟨h, fun a ha => ⟨hpos.mpr (.inr (mod_cast henough)) a ha, hkeys a ha⟩⟩

/-- With a single one held, three is made up of three of minus one, three of zero, two of one and
two of two. -/
theorem parts_not_positive : Keyset.ofJson oddKeys = .ok oddKeyset ∧
    let parts := [-1, -1, -1, 0, 0, 0, 1, 1, 2, 2]
    configure .standard false oddKeyset ⟨3, .random [], false, [1]⟩ = .ok ⟨3, .random [], parts, none⟩ ∧
      ¬ ∀ a ∈ parts, 0 < a := by
  have hparts : denominations oddKeyset 3 3 [] [1] = .ok [-1, -1, -1, 0, 0, 0, 1, 1, 2, 2] := by
    refine Amount.keepAmounts_ok_iff.mpr ⟨[], ?_, ?_⟩
    · rw [oddKeyset_ascending]
      exact Amount.canonical_zero _
    · rw [oddKeyset_ascending]
      exact (Amount.Order.ascending.sort_eq (.refl _) (by decide)).symm
  exact ⟨by decide +kernel, Outcome.bind_ok_iff.mpr ⟨(), rfl, Outcome.bind_ok_iff.mpr ⟨_, hparts, rfl⟩⟩,
    by decide⟩

end Plan

end Ecash
