import Ecash.Proofs.Keyset
import Ecash.Proofs.Plan
import Ecash.Proofs.Program.Passive
import Ecash.Proofs.Selection.Soundness
import Ecash.Proofs.Swap
import Ecash.Wallet.Send
import Ecash.World

/-!
# A send conserves value

A send hands over proofs that were selected exactly, or swaps a selection for
outputs to send and change. Either way the receiver gets the amount, nothing is
lost but the mint's fee for the proofs that were swapped, and every proof of the
wallet is kept, sent or swapped (`send_conserves`). The caller's factories are
taken to make what they are asked for, the mint to sign outputs of a swap for
what they are (`Exchange.MadeAsAsked`, `Exchange.SignedAsAsked`).
-/
namespace Ecash

/-- The outputs of a swap are signed for their own amounts and keysets. -/
def Exchange.SignedAsAsked : Exchange → Prop
  | ⟨.call (.swap p), .ok signatures⟩ => Swap.Signed p.outputs signatures
  | _ => True

instance : DecidablePred Exchange.SignedAsAsked
  | ⟨.call (.swap p), .ok signatures⟩ => Swap.Signed.decidable p.outputs signatures
  | ⟨.call (.swap _), .error _⟩ | ⟨.call .keysets, _⟩ | ⟨.call (.keys _), _⟩ | ⟨.call (.mint _), _⟩
  | ⟨.call (.melt _), _⟩ | ⟨.call (.restore _), _⟩ | ⟨.call (.checkState _), _⟩
  | ⟨.call (.mintQuote ..), _⟩ | ⟨.call (.meltQuote ..), _⟩ | ⟨.shuffle _, _⟩ | ⟨.now, _⟩
  | ⟨.freshSecret, _⟩ | ⟨.freshFactor, _⟩ | ⟨.derive .., _⟩ | ⟨.produce .., _⟩ | ⟨.reserve .., _⟩
  | ⟨.advance .., _⟩ | ⟨.listeners _, _⟩ | ⟨.tell .., _⟩ | ⟨.warn _, _⟩ | ⟨.record _, _⟩ =>
    isTrue trivial

/-- The swaps that were submitted. -/
def swaps (tr : List Exchange) : List SwapPayload :=
  tr.filterMap fun x => match x.command with
    | .call (.swap p) => some p
    | _ => none

theorem swaps_append (t₁ t₂ : List Exchange) : swaps (t₁ ++ t₂) = swaps t₁ ++ swaps t₂ :=
  List.filterMap_append

theorem swaps_of_local {α : Type} {p : Program α} {tr : List Exchange} {r : Outcome α}
    (hp : p.Only Command.Local) (h : p.Yields tr r) : swaps tr = [] := by
  refine List.filterMap_eq_nil_iff.mpr fun x hx => ?_
  have hl := hp.history h x hx
  split
  · rename_i hc
    rw [hc] at hl
    cases hl
  · rfl

namespace Wallet

open Program Selection

variable {w : Wallet} {amount : Int} {proofs : List Proof} {o : SendOptions} {found : Partition}
  {tr : List Exchange}

/-! ## What a send achieves -/

/-- The receiver gets the amount: exactly, or what is left of it after the fee for
spending the proofs. -/
def Pays (w : Wallet) (amount : Int) (includeFees : Bool) (sent : List Proof) : Prop :=
  if includeFees then ∃ fee, w.feeForProofs sent = .ok fee ∧ amount ≤ Proof.total sent - fee
  else Proof.total sent = amount

/-- All proofs are kept or sent, the latter as copies. -/
def HandedOver (proofs : List Proof) (found : Partition) : Prop :=
  ∃ sent, Divided proofs found.keep sent ∧ found.send = sent.map (·.prepared false) ∧
    Proof.total found.keep + Proof.total found.send = Proof.total proofs

/-- All proofs are kept or swapped, for the proofs sent, change and the fee. -/
def SwappedFor (w : Wallet) (proofs : List Proof) (payload : SwapPayload) (found : Partition) : Prop :=
  ∃ kept swapped change fee, Divided proofs kept swapped ∧
    payload.inputs = swapped.map (·.prepared false) ∧ found.keep = change ++ kept ∧
    Fee.charge w.chain swapped = .ok fee ∧
    Proof.total found.keep + Proof.total found.send + fee = Proof.total proofs ∧
    Proof.total payload.inputs - fee = (payload.outputs.map (·.amount)).sum

/-! ## Totals -/

theorem total_append (ps qs : List Proof) :
    Proof.total (ps ++ qs) = Proof.total ps + Proof.total qs := by
  simp only [Proof.total, List.map_append, List.sum_append]

theorem total_perm {ps qs : List Proof} (h : ps.Perm qs) : Proof.total ps = Proof.total qs :=
  (h.map _).sum_eq

theorem total_prepared (qs : List Proof) (keepDleq : Bool) :
    Proof.total (qs.map (·.prepared keepDleq)) = Proof.total qs := by
  unfold Proof.total
  rw [List.map_map]
  rfl

theorem total_divided {kept sent : List Proof} (h : Divided proofs kept sent) :
    Proof.total kept + Proof.total sent = Proof.total proofs := by
  rw [← total_append, total_perm h.perm]

/-! ## Without a swap -/

/-- The proofs that may be sent as they are. -/
def OfflineOptions.offered (options : OfflineOptions) (proofs : List Proof) : List Proof :=
  if options.requireDleq then proofs.filter (·.dleq.isSome) else proofs

theorem offered_sublist (options : OfflineOptions) (proofs : List Proof) :
    (options.offered proofs).Sublist proofs := by
  unfold OfflineOptions.offered
  split
  · exact List.filter_sublist
  · exact List.Sublist.refl _

theorem sendOffline_spec {options : OfflineOptions} (hd : Distinct proofs) (hp : Priced w.chain proofs)
    (h : (w.sendOffline amount proofs options).Yields tr (.ok found)) :
    ∃ selected,
      Sound w.chain ⟨amount, options.includeFees, options.exact⟩ (options.offered proofs) selected ∧
      found = ⟨selected.keep, selected.send.map (·.prepared options.requireDleq)⟩ := by
  have hd : Distinct (options.offered proofs) := hd.sublist (offered_sublist options proofs)
  have hp : Priced w.chain (options.offered proofs) :=
    fun q hq => hp q ((offered_sublist options proofs).subset hq)
  unfold sendOffline at h
  extract_lets offered at h
  split at h
  · exact absurd h not_yields_fail_ok
  · obtain ⟨selected, _, _, -, hs, h⟩ := yields_bind_ok.mp h
    obtain ⟨-, rfl⟩ := yields_pure_ok.mp h
    exact ⟨selected, sound_of_yields hd hp hs, rfl⟩

theorem offlineWithFee_spec {includeFees : Bool} {fee : Int} (hd : Distinct proofs)
    (hp : Priced w.chain proofs)
    (h : (w.offlineWithFee amount proofs includeFees).Yields tr (.ok (found, fee))) :
    (∃ selected, Sound w.chain ⟨amount, includeFees, true⟩ proofs selected ∧
      found = ⟨selected.keep, selected.send.map (·.prepared false)⟩) ∧
      if includeFees then w.feeForProofs found.send = .ok fee else fee = 0 := by
  obtain ⟨found', _, _, -, hf, h⟩ := yields_bind_ok.mp h
  have hs := sendOffline_spec hd hp hf
  dsimp only at h
  split at h
  · rename_i hi
    obtain ⟨fee', _, _, -, hfee, h⟩ := yields_bind_ok.mp h
    obtain ⟨-, ⟨⟩⟩ := yields_pure_ok.mp h
    rw [if_pos hi]
    exact ⟨hs, (yields_lift.mp hfee).2⟩
  · rename_i hi
    obtain ⟨_, _, _, -, hfee, h⟩ := yields_bind_ok.mp h
    obtain ⟨-, rfl⟩ := yields_pure_ok.mp hfee
    obtain ⟨-, ⟨⟩⟩ := yields_pure_ok.mp h
    rw [if_neg hi]
    exact ⟨hs, rfl⟩

theorem trySendOffline_spec (hd : Distinct proofs) (hp : Priced w.chain proofs)
    (h : (w.trySendOffline amount proofs o).Yields tr (.ok (some found))) :
    Pays w amount o.includeFees found.send ∧ HandedOver proofs found := by
  unfold trySendOffline at h
  split at h
  · obtain ⟨-, ⟨⟩⟩ := yields_pure_ok.mp h
  · obtain ⟨r, _, _, -, hr, h⟩ := yields_bind_ok.mp h
    obtain ⟨_, ⟨⟩, hr⟩ := yields_attempt.mp hr
    split at h
    · rename_i found' fee hr
      obtain ⟨-, hf⟩ := yields_pure_ok.mp h
      split at hf
      · rename_i hc
        cases hf
        obtain ⟨⟨selected, hs, rfl⟩, hfee⟩ := offlineWithFee_spec hd hp hr
        have htotal := hc.2
        refine ⟨?_, ?_⟩
        · unfold Pays
          split at hfee
          · rename_i hi
            rw [if_pos hi]
            exact ⟨fee, hfee, by omega⟩
          · rename_i hi
            rw [if_neg hi]
            omega
        · rcases hs with ⟨-, hnil⟩ | ⟨-, hdiv, -⟩
          · simp [hnil] at hc
          · refine ⟨selected.send, hdiv, rfl, ?_⟩
            rw [total_prepared]
            exact total_divided hdiv
      · cases hf
    · obtain ⟨-, ⟨⟩⟩ := yields_pure_ok.mp h
    · obtain ⟨-, ⟨⟩⟩ := yields_ofOutcome.mp h

/-! ## With a swap -/

variable {S : Suite} {k : Keyset} {inputs : List Proof} {change sent : List Output}

/-- The amount and keyset of each proof are those of the output it was made for. -/
def ProofsOf (qs : List Proof) (os : List Output) : Prop :=
  qs.map (fun q => (q.amount, q.keyset)) = os.map fun o => (o.message.amount, o.message.keyset)

theorem ProofsOf.total {qs : List Proof} {os : List Output} (h : ProofsOf qs os) :
    Proof.total qs = Output.total os := by
  have ha := congrArg (List.map Prod.fst) h
  rw [List.map_map, List.map_map] at ha
  exact congrArg List.sum ha

theorem ProofsOf.length {qs : List Proof} {os : List Output} (h : ProofsOf qs os) :
    qs.length = os.length := by
  simpa using congrArg List.length h

theorem ProofsOf.keyset {qs : List Proof} {os : List Output} (h : ProofsOf qs os) {id : Json}
    (ho : ∀ o ∈ os, o.message.keyset = id) : ∀ q ∈ qs, q.keyset = id := by
  intro q hq
  have hm := List.mem_map_of_mem (f := fun q : Proof => (q.amount, q.keyset)) hq
  rw [h] at hm
  obtain ⟨o, hos, he⟩ := List.mem_map.mp hm
  rw [← ho o hos]
  exact (Prod.mk.inj he).2.symm

/-- A swap that ends well was submitted once, and the answer to it unpacked. -/
theorem swap_inv {p : Partition} (h : (swap S k inputs change sent).Yields tr (.ok p)) :
    ∃ signatures : List BlindedSignature,
      (⟨.call (.swap (Swap.assemble inputs change sent).payload), .ok signatures⟩ : Exchange) ∈ tr ∧
      swaps tr = [(Swap.assemble inputs change sent).payload] ∧
      (Swap.assemble inputs change sent).unpack S signatures k = .ok p := by
  obtain ⟨signatures, t₁, t₂, rfl, hc, h⟩ := yields_bind_ok.mp h
  obtain ⟨rfl, hu⟩ := yields_lift.mp h
  refine ⟨signatures, List.mem_append_left _ (mem_of_counted hc), ?_, hu⟩
  rw [history_of_counted hc]
  rfl

theorem swap_spec {p : Partition} (hs : ∀ x ∈ tr, x.SignedAsAsked)
    (h : (swap S k inputs change sent).Yields tr (.ok p)) :
    swaps tr = [(Swap.assemble inputs change sent).payload] ∧ ProofsOf p.keep change ∧
      ProofsOf p.send sent := by
  obtain ⟨signatures, hx, hone, hu⟩ := swap_inv h
  exact ⟨hone, Swap.unpack_spec (hs _ hx) hu⟩

/-- What is selected for a swap, if anything. -/
theorem select_for_swap {r : Selection.Request} {selected : Partition} (hd : Distinct proofs)
    (hp : Priced w.chain proofs) (h : (w.select r proofs).Yields tr (.ok selected))
    (hne : selected.send.isEmpty = false) :
    0 < r.target ∧ Divided proofs selected.keep selected.send := by
  rcases select_cases hp h with rfl | ⟨ht, os, b, ho, hb, rfl⟩
  · cases hne
  · exact ⟨ht, (divide_chosen hd ht ho hb).2.1⟩

/-- The proofs for a configured group pay what was asked for. -/
theorem pays_of_proofs {id : Json} {r : Plan.Request} {s : OutputSpec} {os : List Output}
    {qs : List Proof} (hk : w.chain.Keyed) (hget : w.chain.get id = .ok k)
    (hs : Plan.Configured k r s) (hpos : 0 < s.amount) (hm : ∀ x ∈ tr, x.MadeAsAsked)
    (ho : Plan.Filled S k s tr os) (hq : ProofsOf qs os) : Pays w r.amount r.includeFees qs := by
  have htotal := hq.total.trans (ho.total hpos.le hs hm)
  unfold Pays
  split
  · rename_i hi
    have hfees := hs.fees hi
    obtain hd | ⟨hp, parts, hmade, -, hparts⟩ := ho.made hpos.le hm
    · obtain ⟨hf, -⟩ := hs.custom os (hs.policy ▸ hd)
      exact absurd (hi.symm.trans hf) (by decide)
    · obtain rfl := hparts (hs.parts (fun data hd => hp data (hs.policy.trans hd)) hpos)
      obtain ⟨fee, hfee, hle⟩ := Fee.forProofs_of_keyset (hk.ppk_id hget) (hq.keyset hmade.keyset)
      refine ⟨fee, hfee, ?_⟩
      have hl : qs.length = s.denominations.length := hq.length.trans hmade.length_eq.symm
      rw [hl] at hle
      omega
  · rename_i hi
    rw [htotal, hs.exact (Bool.eq_false_of_not_eq_true hi)]

/-- What a send has in hand when it comes to its swap: proofs that were selected for the target,
and outputs for the target and for the change. Nothing was swapped before. -/
structure Swapping (S : Suite) (w : Wallet) (amount : Int) (proofs : List Proof) (o : SendOptions)
    (tr : List Exchange) where
  keyset : Keyset
  target : OutputSpec
  rest : OutputSpec
  selected : Partition
  fee : Int
  sent : List Output
  change : List Output
  known : w.keyset o.keyset = .ok keyset
  targeted : w.configure keyset ⟨amount, o.sendPolicy.getD w.defaultPolicy, o.includeFees, []⟩ =
    .ok target
  chosen : ∃ t, (w.select ⟨target.amount, true, false⟩ proofs).Yields t (.ok selected)
  nonempty : selected.send.isEmpty = false
  charged : w.feeForProofs selected.send = .ok fee
  covered : target.amount ≤ Proof.total selected.send - fee
  left : w.configure keyset ⟨Proof.total selected.send - fee - target.amount,
    o.keepPolicy.getD w.defaultPolicy, false, selected.keep.map Proof.amount⟩ = .ok rest
  filledSent : Plan.Filled S keyset target tr sent
  filledChange : Plan.Filled S keyset rest tr change
  unswapped : swaps tr = []

/-- A send by swap that ends well comes to its swap, and adds the proofs that it kept. -/
theorem sendBySwap_inv (h : (sendBySwap S w amount proofs o).Yields tr (.ok found)) :
    ∃ (t₁ t₂ : List Exchange) (s : Swapping S w amount proofs o t₁) (swapped : Partition),
      (swap S s.keyset s.selected.send s.change s.sent).Yields t₂ (.ok swapped) ∧ tr = t₁ ++ t₂ ∧
      found = ⟨swapped.keep ++ s.selected.keep, swapped.send⟩ := by
  obtain ⟨k, hget, h⟩ := yields_lift_bind_ok.mp h
  obtain ⟨target, htarget, h⟩ := yields_lift_bind_ok.mp h
  obtain ⟨selected, u₁, v₁, rfl, hsel, h⟩ := yields_bind_ok.mp h
  split at h
  · exact absurd h not_yields_fail_ok
  rename_i hne
  obtain ⟨fee, hfee, h⟩ := yields_lift_bind_ok.mp h
  dsimp only at h
  split at h
  · exact absurd h not_yields_fail_ok
  rename_i hchange
  obtain ⟨rest, hrest, h⟩ := yields_lift_bind_ok.mp h
  obtain ⟨⟨specs, used⟩, u₂, v₂, rfl, hassign, h⟩ := yields_bind_ok.mp h
  obtain ⟨outputs, u₃, t₂, rfl, hbuild, h⟩ := yields_bind_ok.mp h
  obtain ⟨swapped, hswap, rfl⟩ := yields_bind_pure_ok.mp h
  -- two groups were assigned, so there are two lists of outputs
  have hgroups := Plan.groups_filled hassign hbuild
  simp only [List.forall₂_cons_left_iff, List.forall₂_nil_left_iff] at hgroups
  obtain ⟨sent, _, hsent, ⟨change, _, hback, rfl, rfl⟩, rfl⟩ := hgroups
  simp only [List.tail_cons, List.flatten_cons, List.flatten_nil, List.append_nil,
    List.headD_cons] at hswap
  have hsub : u₃ ⊆ u₁ ++ (u₂ ++ u₃) := fun x hx => by simp [hx]
  have hnone : swaps (u₁ ++ (u₂ ++ u₃)) = [] := by
    have h₁ := swaps_of_local ((only_select ..).mono fun _ => Command.Quiet.local) hsel
    have h₂ := swaps_of_local ((Plan.only_assign ..).mono fun _ => Command.Assigning.local) hassign
    have h₃ := swaps_of_local ((Only.mapM (Plan.only_build S w.seeded k) _).mono
      fun _ => Command.Making.local) hbuild
    rw [swaps_append, swaps_append, h₁, h₂, h₃]
    rfl
  let s : Swapping S w amount proofs o (u₁ ++ (u₂ ++ u₃)) :=
    { keyset := k, target, rest, selected, fee, sent, change
      known := hget
      targeted := htarget
      chosen := ⟨u₁, hsel⟩
      nonempty := by simpa using hne
      charged := hfee
      covered := by omega
      left := hrest
      filledSent := hsent.mono hsub
      filledChange := hback.mono hsub
      unswapped := hnone }
  exact ⟨_, t₂, s, swapped, hswap, by simp, rfl⟩

theorem sendBySwap_spec (hk : w.chain.Keyed) (hd : Distinct proofs) (hp : Priced w.chain proofs)
    (hm : ∀ x ∈ tr, x.MadeAsAsked) (hs : ∀ x ∈ tr, x.SignedAsAsked)
    (h : (sendBySwap S w amount proofs o).Yields tr (.ok found)) :
    Pays w amount o.includeFees found.send ∧
      ∃ payload, swaps tr = [payload] ∧ SwappedFor w proofs payload found := by
  obtain ⟨t₁, t₂, s, swapped, hswap, rfl, rfl⟩ := sendBySwap_inv h
  rw [List.forall_mem_append] at hm hs
  have htarget := Plan.configure_spec s.targeted
  have hrest := Plan.configure_spec s.left
  obtain ⟨u, hsel⟩ := s.chosen
  obtain ⟨hpos, hdiv⟩ := select_for_swap hd hp hsel s.nonempty
  obtain ⟨hswaps, hkeep, hsend⟩ := swap_spec hs.2 hswap
  have hcovered := s.covered
  have hsent := s.filledSent.total hpos.le htarget hm.1
  have hamount := hrest.exact rfl
  dsimp only at hamount
  have hback := s.filledChange.total (by omega) hrest hm.1
  refine ⟨pays_of_proofs hk s.known htarget hpos hm.1 s.filledSent hsend,
    (Swap.assemble s.selected.send s.change s.sent).payload, ?_, s.selected.keep, s.selected.send,
    swapped.keep, s.fee, hdiv, rfl, rfl, ?_, ?_, ?_⟩
  · rw [swaps_append, s.unswapped, hswaps]
    rfl
  · rw [← Fee.forProofs_eq_charge]
    exact s.charged
  · have htotal := total_divided hdiv
    rw [total_append, hkeep.total, hsend.total, hsent, hback]
    omega
  · rw [Swap.payload_total, hsent, hback]
    change Proof.total (s.selected.send.map (·.prepared false)) - s.fee = _
    rw [total_prepared]
    omega

theorem send_spec (hk : w.chain.Keyed) (hd : Distinct proofs) (hp : Priced w.chain proofs)
    (hm : ∀ x ∈ tr, x.MadeAsAsked) (hs : ∀ x ∈ tr, x.SignedAsAsked)
    (h : (send S w amount proofs o).Yields tr (.ok found)) :
    Pays w amount o.includeFees found.send ∧
      ((swaps tr = [] ∧ HandedOver proofs found) ∨
        ∃ payload, swaps tr = [payload] ∧ SwappedFor w proofs payload found) := by
  obtain ⟨offline, t₁, t₂, rfl, ho, h⟩ := yields_bind_ok.mp h
  have hnone := swaps_of_local ((only_trySendOffline ..).mono fun _ => Command.Quiet.local) ho
  rw [List.forall_mem_append] at hm hs
  rw [swaps_append, hnone, List.nil_append]
  cases offline with
  | some found' =>
    obtain ⟨rfl, rfl⟩ := yields_pure_ok.mp h
    obtain ⟨hpays, hover⟩ := trySendOffline_spec hd hp ho
    exact ⟨hpays, .inl ⟨rfl, hover⟩⟩
  | none =>
    obtain ⟨hpays, hswapped⟩ := sendBySwap_spec hk hd hp hm.2 hs.2 h
    exact ⟨hpays, .inr hswapped⟩

/-- Whatever the wallet's settings, the policies, chance and time: when a send ends
well, the receiver has the amount, at most one swap was submitted and it balances,
and no proof is lost. -/
theorem send_conserves {σ : Type} (handle : (c : Command) → σ → c.Answer × σ) (s : σ) (S : Suite)
    (w : Wallet) (amount : Int) (proofs : List Proof) (o : SendOptions) (found : Partition)
    (hk : w.chain.Keyed) (hd : Distinct proofs) (hp : Priced w.chain proofs)
    (hm : ∀ x ∈ (send S w amount proofs o).history handle s, x.MadeAsAsked)
    (hs : ∀ x ∈ (send S w amount proofs o).history handle s, x.SignedAsAsked)
    (h : ((send S w amount proofs o).run handle s).1 = .ok found) :
    Pays w amount o.includeFees found.send ∧
      ((swaps ((send S w amount proofs o).history handle s) = [] ∧ HandedOver proofs found) ∨
        ∃ payload, swaps ((send S w amount proofs o).history handle s) = [payload] ∧
          SwappedFor w proofs payload found) :=
  send_spec hk hd hp hm hs (h ▸ yields_run handle _ s)

/-- A group of one element, as good as any where nothing is at stake. -/
def oneElement : Suite where
  Point := Unit
  order := 1
  base := ()
  add _ _ := ()
  mul _ _ := ()
  encode _ := .ok []
  decode _ := .ok ()
  sha256 _ := []
  hmacSha256 _ _ := []
  hmacSha512 _ _ := []

/-- A keyset with a key for the amount one only, that charges a unit for an input. -/
def ones : Keyset := ⟨.str "00", .str "sat", .bool true, 1000, .null, [(1, .str "")]⟩

def onesWallet : Wallet where
  settings := ⟨false, "sat", "", .random, "", ⟨"", 0, ""⟩, .standard, .standard, ⟨1, 1⟩, ⟨false⟩⟩
  chain := ⟨.str "sat", [ones]⟩
  seeded := false

/-- Proofs of one and of two. The first pays for nothing but its own fee. -/
def onesProofs : List Proof :=
  [1, 2].map fun amount => ⟨ones.id, amount, .str (toString amount), .null, none, .null, none⟩

def onesOptions : SendOptions := ⟨⟨ones.id, none⟩, false, none, none⟩

/-- A unit is sent: the proof of two is swapped for it, and the other one stays. -/
theorem send_conserves_ones :
    let sent : Proof := ⟨ones.id, 1, .str "", .str "", none, .null, none⟩
    Pays onesWallet 1 false [sent] ∧
      ∃ payload, SwappedFor onesWallet onesProofs payload ⟨onesProofs.take 1, [sent]⟩ := by
  intro sent
  let handle := World.handle oneElement
  let world := World.fresh none (.fresh [⟨ones, [(1, 1)], false⟩])
  have hk : onesWallet.chain.Keyed := ⟨List.pairwise_singleton _ _, by decide⟩
  have hd : Distinct onesProofs := by decide
  have hp : Priced onesWallet.chain onesProofs := by decide
  have hm : ∀ x ∈ (send oneElement onesWallet 1 onesProofs onesOptions).history handle world,
      x.MadeAsAsked := by decide +kernel
  have hs : ∀ x ∈ (send oneElement onesWallet 1 onesProofs onesOptions).history handle world,
      x.SignedAsAsked := by decide +kernel
  have hr : ((send oneElement onesWallet 1 onesProofs onesOptions).run handle world).1 =
      .ok ⟨onesProofs.take 1, [sent]⟩ := by decide +kernel
  have hone : swaps ((send oneElement onesWallet 1 onesProofs onesOptions).history handle world) ≠ [] := by
    decide +kernel
  obtain ⟨hpays, ⟨hnone, -⟩ | ⟨payload, -, hswapped⟩⟩ :=
    send_conserves handle world oneElement onesWallet 1 onesProofs onesOptions _ hk hd hp hm hs hr
  · exact absurd hnone hone
  · exact ⟨hpays, payload, hswapped⟩

end Wallet

end Ecash
