import Ecash.Proofs.Amount.Binary
import Ecash.Proofs.Decimal.Logarithm
import Ecash.Proofs.Program.Announcement
import Ecash.Proofs.Wallet.Refusal
import Mathlib.Data.Nat.Log

/-!
# Blanks hold the change

With a melt go as many blanks as the ceiling of the logarithm of what is overpaid says
(`melt_cases`). If the keyset has binary denominations, that is enough for every amount that
the mint may give back (`lt_of_blankCount`). So a mint that gives the change in canonical
denominations has a blank for each signature, and all of them are unblinded
(`blanks_hold_change`).
-/
namespace Ecash

/-- What proofs are worth beyond the quoted amount. -/
def MeltQuote.overpaid (quote : MeltQuote) (proofs : List Proof) : Int :=
  Proof.total proofs - quote.amount

namespace Plan

open Program

/-- Blanks are outputs of amount zero, as many as were asked for. -/
theorem blanks_inv {S : Suite} {seeded : Bool} {k : Keyset} {policy : Policy} {count : Int}
    {own : Option Listener} {tr : List Exchange} {os : List Output}
    (h : (blanks S seeded k policy count own).Yields tr (.ok os)) :
    count ≤ 0 ∧ os = [] ∨
      0 < count ∧ List.Forall₂ (Source S k tr) (List.replicate count.toNat 0) os := by
  unfold blanks at h
  split at h
  · exact absurd h not_yields_fail_ok
  rename_i hp
  split at h
  · rename_i hnone
    exact .inl ⟨hnone, (yields_pure_ok.mp h).2⟩
  · rename_i hsome
    have hpos : 0 < count := by omega
    obtain ⟨_, -, hfinish⟩ := yields_lift_bind_ok.mp h
    cases finish_filled hfinish with
    | negative hlt => exact absurd hlt (Int.lt_irrefl 0)
    | custom hcustom => exact absurd hcustom (hp os)
    | parts _ hs _ hall =>
      have hne : List.replicate count.toNat (0 : Int) ≠ [] := by
        rw [ne_eq, List.replicate_eq_nil_iff]
        omega
      obtain rfl := hall hne
      exact .inr ⟨hpos, hs⟩

end Plan

namespace Wallet

open Program

variable {S : Suite} {w : Wallet} {k : Keyset} {quote : MeltQuote} {proofs : List Proof}
  {o : MeltOptions} {tr : List Exchange} {r : Outcome Melted}

/-! ## How many blanks -/

/-- Either the ceiling of the logarithm is exact, or the number does not have very many
digits: then what is lost in doubles does no harm. -/
def CeilingServes (n : Nat) : Prop := Decimal.ceilLog2 n = Nat.clog 2 n ∨ n.log2 < 2 ^ 50

theorem blankCount_pos (n : Nat) : 0 < blankCount n := by
  unfold blankCount
  omega

theorem lt_of_blankCount {n : Nat} (h : CeilingServes n) :
    n < 2 ^ blankCount n + 2 ^ (blankCount n - 1) := by
  rcases h with hexact | hbound
  · have hclog : n ≤ 2 ^ Nat.clog 2 n := Nat.le_pow_clog (by decide) n
    have hmono : 2 ^ Nat.clog 2 n ≤ 2 ^ blankCount n := by
      refine Nat.pow_le_pow_right (by decide) ?_
      rw [← hexact]
      exact Nat.le_max_left _ _
    have hpos : 0 < 2 ^ (blankCount n - 1) := Nat.two_pow_pos _
    omega
  · exact Decimal.lt_of_ceilLog2 hbound

/-- Whatever part of the overpayment comes back, there is a blank for each denomination. -/
theorem canonical_le_blankCount {F c : Int} (hpower : ∀ a ∈ k.amounts, ∃ j : Nat, a = 2 ^ j)
    (hall : ∀ j : Nat, (2 : Int) ^ j ≤ F → 2 ^ j ∈ k.amounts) (hlog : CeilingServes F.toNat) (hc : 0 < c)
    (hle : c ≤ F) :
    ∃ parts, Amount.canonical c k.amounts = .ok parts ∧ parts.length ≤ blankCount F.toNat := by
  have hcount := lt_of_blankCount hlog
  have hcount : (F.toNat : Int) < 2 ^ blankCount F.toNat + 2 ^ (blankCount F.toNat - 1) := by
    exact_mod_cast hcount
  exact Amount.canonical_length (blankCount_pos _) hpower (fun j hj => hall j (hj.trans hle)) hc.le
    (by omega)

/-! ## What a melt does -/

/-- A melt is one call, and its change is unblinded unless there are more signatures than
blanks. -/
theorem completeMelt_cases {b : MeltBlanks} (h : (completeMelt S b).Yields tr r) :
    ∃ answer t, tr = ⟨.call (.melt b.payload), answer⟩ :: t ∧ (∀ x ∈ t, x.command.Local) ∧
      ∀ response : MeltQuote, answer = .ok response → response.change.length ≤ b.outputs.length →
        r = (toProofs S b.keyset b.outputs response.change).map fun change =>
          ⟨b.quote.mergedWith response, change⟩ := by
  obtain ⟨e, hcall, rfl⟩ | ⟨response, t₁, t₂, rfl, hcall, hrest⟩ := yields_bind.mp h
  · rw [history_of_counted hcall]
    exact ⟨.error e, _, rfl, List.forall_mem_singleton.mpr trivial, nofun⟩
  rw [history_of_counted hcall]
  split at hrest
  · rename_i hmore
    obtain ⟨_, t, rfl, hfail⟩ := yields_ask.mp hrest
    obtain ⟨rfl, rfl⟩ := yields_done.mp hfail
    refine ⟨.ok response, _, rfl, ?_, ?_⟩
    · simp [Command.Local]
    · rintro response' ⟨⟩ hfew
      omega
  · obtain ⟨r', hproofs, rfl⟩ := yields_bind_pure.mp hrest
    obtain ⟨rfl, rfl⟩ := yields_lift.mp hproofs
    refine ⟨.ok response, _, rfl, List.forall_mem_singleton.mpr trivial, ?_⟩
    rintro response' ⟨⟩ -
    rfl

/-- The blanks for what is overpaid. -/
def blanksFor (S : Suite) (w : Wallet) (quote : MeltQuote) (proofs : List Proof) (k : Keyset)
    (o : MeltOptions) : Program (List Output) :=
  if 0 < quote.overpaid proofs then
    Plan.blanks S w.seeded k (o.policy.getD w.defaultPolicy) (blankCount (quote.overpaid proofs).toNat)
      o.onReserved
  else pure []

/-- All that is needed to finish a melt. -/
def meltWith (quote : MeltQuote) (proofs : List Proof) (k : Keyset) (outputs : List Output) : MeltBlanks :=
  ⟨⟨quote.quote, proofs.map (·.prepared false), outputs.map Output.message⟩, outputs, k, quote⟩

theorem melt_of_keyset (hk : w.keyset o.keyset = .ok k) :
    w.melt S quote proofs o = (do
      let outputs ← blanksFor S w quote proofs k o
      announce .changeOutputsCreated (.blanks (meltWith quote proofs k outputs)) o.onBlanks
      completeMelt S (meltWith quote proofs k outputs)) := by
  unfold melt
  rw [hk]
  unfold blanksFor
  split
  · rename_i hpos
    exact if_pos hpos
  · rename_i hneg
    exact if_neg hneg

/-- None if nothing is overpaid, else as many as it calls for, of amount zero. -/
theorem blanksFor_spec {os : List Output}
    (h : (blanksFor S w quote proofs k o).Yields tr (.ok os)) :
    (quote.overpaid proofs ≤ 0 → os = []) ∧
      (0 < quote.overpaid proofs → os.length = blankCount (quote.overpaid proofs).toNat) ∧
      ((∀ x ∈ tr, x.HonoursAmount) → ∀ b ∈ os, b.message.amount = 0) := by
  unfold blanksFor at h
  split at h
  · rename_i hpos
    have hone := blankCount_pos (quote.overpaid proofs).toNat
    obtain ⟨hnone, -⟩ | ⟨-, hsource⟩ := Plan.blanks_inv h
    · omega
    rw [Int.toNat_natCast] at hsource
    refine ⟨fun hnone => absurd hpos (by omega), fun _ => ?_, fun hm b hb => ?_⟩
    · rw [← hsource.length_eq, List.length_replicate]
    · have hamount := List.mem_map_of_mem (f := (·.message.amount)) hb
      rw [Plan.amounts_of_source hm hsource] at hamount
      exact List.eq_of_mem_replicate hamount
  · rename_i hneg
    obtain ⟨-, rfl⟩ := yields_pure_ok.mp h
    exact ⟨fun _ => rfl, fun hpos => absurd hpos hneg, fun _ => nofun⟩

theorem blanksFor_local (S : Suite) (w : Wallet) (quote : MeltQuote) (proofs : List Proof) (k : Keyset)
    (o : MeltOptions) : (blanksFor S w quote proofs k o).Only Command.Local := by
  unfold blanksFor
  split
  · exact Plan.only_blanks S (fun _ => Command.Assigning.local) (fun _ => Command.Making.local) ..
  · exact Only.pure _

/-- A melt gets its blanks and then is completed with them, or does not come to its call. -/
theorem melt_cases (hk : w.keyset o.keyset = .ok k) (h : (w.melt S quote proofs o).Yields tr r) :
    (∀ x ∈ tr, x.command.Local) ∨ ∃ outputs t₁ t₂ t₃, tr = t₁ ++ (t₂ ++ t₃) ∧
      (∀ x ∈ t₁ ++ t₂, x.command.Local) ∧ (blanksFor S w quote proofs k o).Yields t₁ (.ok outputs) ∧
      (completeMelt S (meltWith quote proofs k outputs)).Yields t₃ r := by
  rw [melt_of_keyset hk] at h
  obtain ⟨e, hblanks, -⟩ | ⟨outputs, t₁, t, rfl, hblanks, hrest⟩ := yields_bind.mp h
  · exact .inl ((blanksFor_local ..).history hblanks)
  obtain ⟨e, hannounce, -⟩ | ⟨_, t₂, t₃, rfl, hannounce, hmelt⟩ := yields_bind.mp hrest
  · cases (yields_announce hannounce).1
  refine .inr ⟨outputs, t₁, t₂, t₃, rfl, ?_, hblanks, hmelt⟩
  refine List.forall_mem_append.mpr ⟨(blanksFor_local ..).history hblanks, fun x hx => ?_⟩
  exact ((announced hannounce).only x hx).local

/-! ## Room for the change -/

/-- What went along with a melt, and what came of it. No blanks unless something is overpaid,
then as many as were counted, of amount zero where factories honour it. If
the change comes back in canonical denominations of some part of the overpayment, it has no
more signatures than there are blanks, and the melt ends as unblinding them does. -/
structure RoomForChange (S : Suite) (k : Keyset) (quote : MeltQuote) (overpaid : Int)
    (tr : List Exchange) (p : MeltPayload) (answer : Outcome MeltQuote) (r : Outcome Melted) : Prop where
  unneeded : overpaid ≤ 0 → p.outputs = []
  count : 0 < overpaid → p.outputs.length = blankCount overpaid.toNat
  blank : (∀ x ∈ tr, x.HonoursAmount) → ∀ m ∈ p.outputs, m.amount = 0
  room : ∀ (response : MeltQuote) c parts, answer = .ok response → 0 < c → c ≤ overpaid →
    Amount.canonical c k.amounts = .ok parts → (response.change.map (·.amount)).Perm parts →
      response.change.length ≤ p.outputs.length ∧ r ≠ .error (.wallet .tooMuchChange) ∧
      ∃ outputs, outputs.map Output.message = p.outputs ∧
        r = (toProofs S k outputs response.change).map fun change =>
          ⟨quote.mergedWith response, change⟩

/-- Unblinding the change cannot fail for its being too much. -/
theorem toProofs_ne_tooMuch {f : List Proof → Melted} {outputs : List Output}
    {change : List BlindedSignature} :
    (toProofs S k outputs change).map f ≠ .error (.wallet .tooMuchChange) := by
  have hrefusal : (Failure.wallet .tooMuchChange).Refusal := trivial
  have hkey (id : Json) (amount : Int) :
      Failure.wallet .tooMuchChange ≠ .wallet (.noKeyFor id amount) := by
    intro h
    cases h
  have hne := toProofs_ne_error (S := S) (k := k) hrefusal hkey outputs change
  cases hp : toProofs S k outputs change with
  | ok proofs => nofun
  | error e =>
    rw [hp] at hne
    intro h
    cases h
    exact hne rfl

/-- As many blanks as the longest change has parts are enough. -/
theorem room_for_change {outputs : List Output} {answer : Outcome MeltQuote} {t : List Exchange}
    (ht : t ⊆ tr) (hblanks : (blanksFor S w quote proofs k o).Yields t (.ok outputs))
    (hroom : ∀ c, 0 < c → c ≤ quote.overpaid proofs → ∃ parts,
      Amount.canonical c k.amounts = .ok parts ∧ parts.length ≤ blankCount (quote.overpaid proofs).toNat)
    (hresult : ∀ response : MeltQuote, answer = .ok response →
      response.change.length ≤ outputs.length → r = (toProofs S k outputs response.change).map fun change =>
        ⟨quote.mergedWith response, change⟩) :
    RoomForChange S k quote (quote.overpaid proofs) tr (meltWith quote proofs k outputs).payload
      answer r := by
  obtain ⟨hnone, hcount, hblank⟩ := blanksFor_spec hblanks
  have hlength : (outputs.map Output.message).length = outputs.length := List.length_map _
  refine ⟨fun hneg => ?_, fun hpos => hlength.trans (hcount hpos), fun hm => ?_, ?_⟩
  · rw [hnone hneg]
    rfl
  · exact List.forall_mem_map.mpr (hblank fun x hx => hm x (ht hx))
  · intro response c parts hanswer hc hle hparts hperm
    obtain ⟨parts', hparts', hshort⟩ := hroom c hc hle
    obtain rfl : parts = parts' := Except.ok.inj (hparts.symm.trans hparts')
    have hfew : response.change.length ≤ outputs.length := by
      rw [hcount (by omega), ← List.length_map (·.amount), hperm.length_eq]
      exact hshort
    have hr := hresult response hanswer hfew
    refine ⟨hfew.trans hlength.ge, ?_, outputs, rfl, hr⟩
    rw [hr]
    exact toProofs_ne_tooMuch

/-- For all proofs and every quote, with a keyset whose amounts are powers of two and lack
none up to what is overpaid, whatever the policy, and whatever is answered: every part of the
overpayment has canonical denominations, and there are no more of them than blanks. So a mint
that gives change in canonical denominations never gives too much of it. If nothing is
overpaid, no blank goes along. -/
theorem blanks_hold_change (S : Suite) (hk : w.keyset o.keyset = .ok k)
    (hpower : ∀ a ∈ k.amounts, ∃ j : Nat, a = 2 ^ j)
    (hall : ∀ j : Nat, (2 : Int) ^ j ≤ quote.overpaid proofs → 2 ^ j ∈ k.amounts)
    (hlog : CeilingServes (quote.overpaid proofs).toNat) (h : (w.melt S quote proofs o).Yields tr r) :
    (∀ c, 0 < c → c ≤ quote.overpaid proofs → ∃ parts, Amount.canonical c k.amounts = .ok parts ∧
        parts.length ≤ blankCount (quote.overpaid proofs).toNat) ∧
      ∀ p answer, (⟨.call (.melt p), answer⟩ : Exchange) ∈ tr →
        RoomForChange S k quote (quote.overpaid proofs) tr p answer r := by
  have hroom (c : Int) (hc : 0 < c) (hle : c ≤ quote.overpaid proofs) :=
    canonical_le_blankCount hpower hall hlog hc hle
  refine ⟨hroom, fun p answer hx => ?_⟩
  obtain hlocal | ⟨outputs, t₁, t₂, t₃, rfl, hlocal, hblanks, hmelt⟩ := melt_cases hk h
  · cases hlocal _ hx
  -- the only call is the one that completes the melt
  obtain ⟨answer', t, rfl, hrest, hresult⟩ := completeMelt_cases hmelt
  rw [← List.append_assoc] at hx
  rcases List.mem_append.mp hx with hbefore | hmem
  · cases hlocal _ hbefore
  rcases List.mem_cons.mp hmem with hcall | hafter
  · cases hcall
    exact room_for_change (List.subset_append_left _ _) hblanks hroom hresult
  · cases hrest _ hafter

/-- What was submitted to a melt, and the answer to it. -/
def melted? : Exchange → Option (MeltPayload × MeltQuote)
  | ⟨.call (.melt p), .ok response⟩ => some (p, response)
  | _ => none

theorem eq_of_melted? {x : Exchange} {p : MeltPayload} {response : MeltQuote}
    (h : melted? x = some (p, response)) : x = ⟨.call (.melt p), .ok response⟩ := by
  unfold melted? at h
  split at h
  · cases h
    rfl
  · cases h

/-- A quote of one is paid with a proof of four. There are two blanks, and the mint gives one
and two back. -/
theorem blanks_hold_change_three :
    let quote : MeltQuote := ⟨.str "q", 1, 3, .str "sat", .str "", .unpaid, .null, .null, []⟩
    let four : Proof := ⟨.str "00", 4, .str "a", .null, none, .null, none⟩
    let mint : Mint.Simulated :=
      { Mint.Simulated.fresh [⟨oneAndTwo, [(1, 1), (2, 1)], false⟩] with
        behaviour := { Mint.Behaviour.honest with change := [1, 2] } }
    let p := (seededWallet oneAndTwo).melt oneElement quote [four] ⟨⟨.null, none⟩, some (.random []), none⟩
    ∃ payload response,
      ⟨.call (.melt payload), .ok response⟩ ∈ p.history (World.handle oneElement) (World.fresh none mint) ∧
        payload.outputs.map (·.amount) = [0, 0] ∧ response.change.map (·.amount) = [1, 2] ∧
        response.change.length ≤ payload.outputs.length ∧
        (p.run (World.handle oneElement) (World.fresh none mint)).1 ≠ .error (.wallet .tooMuchChange) := by
  intro quote four mint p
  have hamounts : oneAndTwo.amounts = [1, 2] := by simp [Keyset.amounts, oneAndTwo, List.mergeSort]
  have hpower : ∀ a ∈ oneAndTwo.amounts, ∃ j : Nat, a = 2 ^ j := by
    rw [hamounts]
    simp only [List.mem_cons, List.not_mem_nil, or_false]
    rintro a (rfl | rfl)
    · exact ⟨0, rfl⟩
    · exact ⟨1, rfl⟩
  have hall (j : Nat) (hj : (2 : Int) ^ j ≤ quote.overpaid [four]) : 2 ^ j ∈ oneAndTwo.amounts := by
    have hover : quote.overpaid [four] = 3 := by decide
    rw [hover] at hj
    rw [hamounts]
    rcases j with _ | _ | j
    · decide
    · decide
    · have hpos : (0 : Int) < 2 ^ j := by positivity
      rw [pow_add] at hj
      omega
  have hparts : Amount.canonical 3 oneAndTwo.amounts = .ok [1, 2] := by
    have hdescending : Amount.descending [1, 2] = [2, 1] := by simp [Amount.descending, List.mergeSort]
    have hgreedy : Amount.greedy [2, 1] 3 = ([2, 1], 0) := by decide
    rw [hamounts, Amount.canonical_of_greedy (by rw [hdescending, hgreedy]), hdescending, hgreedy]
    simp [Amount.ascending, List.mergeSort]
  obtain ⟨x, hx, hmelted⟩ : ∃ x ∈ p.history (World.handle oneElement) (World.fresh none mint),
      (melted? x).map (fun m => (m.1.outputs.map (·.amount), m.2.change.map (·.amount))) =
        some ([0, 0], [1, 2]) := by decide +kernel
  obtain ⟨⟨payload, response⟩, hboth, hshown⟩ := Option.map_eq_some_iff.mp hmelted
  obtain ⟨hblank, hchange⟩ := Prod.mk.inj hshown
  obtain rfl := eq_of_melted? hboth
  obtain ⟨-, hrooms⟩ := blanks_hold_change oneElement (k := oneAndTwo) (by decide +kernel) hpower hall
    (.inr (by decide)) (yields_run (World.handle oneElement) p (World.fresh none mint))
  obtain ⟨hfew, hne, -⟩ := (hrooms payload _ hx).room response 3 [1, 2] rfl (by decide) (by decide)
    hparts (hchange ▸ List.Perm.refl _)
  exact ⟨payload, response, hx, hblank, hchange, hfew, hne⟩

end Wallet

end Ecash
