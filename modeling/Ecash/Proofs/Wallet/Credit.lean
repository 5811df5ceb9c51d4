import Ecash.Proofs.Wallet.Verification

/-!
# Receiving and minting credit the net amount

A token is worth its total less the mint's fee for its proofs, a quote what it is for. The
outputs that are planned for this amount add up to it, whoever makes them
(`newOutputs_planned`). Each of them, in the order of the plan, becomes a proof by the
signature on its own message, whatever the order on the wire (`Redeemed`); so where the
mint signs for the amounts it is asked for, the new proofs are worth exactly that
(`credits_exactly`).
-/
namespace Ecash

/-- What is signed is signed for the amount that was asked for. -/
def Exchange.SignedInFull (x : Exchange) : Prop := ∀ m ∈ x.signed, m.2.amount = m.1.amount

instance : DecidablePred Exchange.SignedInFull :=
  fun x => inferInstanceAs (Decidable (∀ m ∈ x.signed, m.2.amount = m.1.amount))

namespace Wallet

open Program

variable {S : Suite} {w : Wallet} {k : Keyset} {o : NewProofs} {tr : List Exchange}
  {outputs : List Output} {proofs : List Proof} {amount : Int}

/-! ## Planned outputs -/

/-- The outputs for an amount: the caller's own, or one for each denomination of the group
that is configured. -/
structure Planned (w : Wallet) (k : Keyset) (amount : Int) (o : NewProofs) (outputs : List Output) :
    Prop where
  group : ∃ s, w.configure k ⟨amount, o.policy.getD w.defaultPolicy, false, o.held⟩ = .ok s ∧
    (s.policy = .custom outputs ∨ Plan.Made k s.denominations outputs)
  total : Output.total outputs = amount

theorem newOutputs_planned (ha : 0 < amount) (hm : ∀ x ∈ tr, x.MadeAsAsked)
    (h : (w.newOutputs S k amount o).Yields tr (.ok outputs)) : Planned w k amount o outputs := by
  obtain ⟨s, hs, h⟩ := yields_lift_bind_ok.mp h
  have hfilled := Plan.finish_filled h
  have hspec := Plan.configure_spec hs
  have hamount : s.amount = amount := hspec.exact rfl
  refine ⟨⟨s, hs, ?_⟩, (hfilled.total (by omega) hspec hm).trans hamount⟩
  obtain hcustom | ⟨hp, parts, hparts, -, hall⟩ := hfilled.made (by omega) hm
  · exact .inl hcustom
  · have hne : s.denominations ≠ [] :=
      hspec.parts (fun data hd => hp data (hspec.policy.trans hd)) (by omega)
    rw [← hall hne]
    exact .inr hparts

theorem newOutputs_local (S : Suite) (w : Wallet) (k : Keyset) (amount : Int) (o : NewProofs) :
    (w.newOutputs S k amount o).Only Command.Local :=
  (Only.lift _).bind fun _ =>
    Plan.only_finish S (fun _ => Command.Assigning.local) (fun _ => Command.Making.local) ..

/-! ## Redeemed outputs -/

/-- The outputs became the proofs, one by one and for their amounts. -/
def Redeemed (S : Suite) (k : Keyset) (signed : List (BlindedMessage × BlindedSignature)) :
    List Output → List Proof → Prop :=
  List.Forall₂ fun o q => o.Redeemed S k signed q ∧ q.amount = o.message.amount

theorem redeemed_of_signed {x : Exchange} (hx : x.SignedInFull)
    (h : List.Forall₂ (Output.Redeemed S k x.signed) outputs proofs) :
    Redeemed S k x.signed outputs proofs := by
  refine h.imp fun o q hq => ⟨hq, ?_⟩
  obtain ⟨s, hs, hproof⟩ := hq
  exact (Output.amount_of_toProof hproof).trans (hx _ hs)

/-- Proofs of the outputs' amounts are worth together what the outputs are. -/
theorem total_of_amounts (h : List.Forall₂ (fun o q => q.amount = o.message.amount) outputs proofs) :
    Proof.total proofs = Output.total outputs := by
  induction h with
  | nil => rfl
  | cons hq _ ih =>
    unfold Proof.total Output.total at ih ⊢
    rw [List.map_cons, List.map_cons, List.sum_cons, List.sum_cons, hq, ih]

theorem Redeemed.total {signed : List (BlindedMessage × BlindedSignature)}
    (h : Redeemed S k signed outputs proofs) : Proof.total proofs = Output.total outputs :=
  total_of_amounts (h.imp fun _ _ => And.right)

/-- With a signature for each output, for its amount, the proofs have the outputs'
amounts. -/
theorem toProofs_spec {signatures : List BlindedSignature} (hl : signatures.length = outputs.length)
    (hs : ∀ m ∈ (outputs.map Output.message).zip signatures, m.2.amount = m.1.amount)
    (h : toProofs S k outputs signatures = .ok proofs) :
    List.Forall₂ (fun z q => z.1.toProof S z.2 k = .ok q ∧ q.amount = z.1.message.amount)
        (outputs.zip signatures) proofs ∧ Proof.total proofs = Output.total outputs := by
  have heach : List.Forall₂ (fun z q => z.1.toProof S z.2 k = .ok q ∧ q.amount = z.1.message.amount)
      (outputs.zip signatures) proofs := by
    obtain ⟨hlen, hz⟩ := List.forall₂_iff_zip.mp (Outcome.mapM_ok_iff.mp h)
    refine List.forall₂_iff_zip.mpr ⟨hlen, ?_⟩
    rintro ⟨out, signature⟩ q hmem
    have hproof : out.toProof S signature k = .ok q := hz hmem
    have hsigned : (out.message, signature) ∈ (outputs.map Output.message).zip signatures := by
      rw [List.zip_map_left]
      exact List.mem_map_of_mem (f := Prod.map Output.message id) (List.of_mem_zip hmem).1
    exact ⟨hproof, (Output.amount_of_toProof hproof).trans (hs _ hsigned)⟩
  refine ⟨heach, total_of_amounts ?_⟩
  have hfst : (outputs.zip signatures).map Prod.fst = outputs := List.map_fst_zip hl.ge
  rw [← hfst, List.forall₂_map_left_iff]
  exact heach.imp fun _ _ => And.right

/-! ## What is credited -/

/-- The token was swapped once, for proofs of what the mint's fee leaves of it. -/
def Received (S : Suite) (w : Wallet) (t : Token) (o : NewProofs) (tr : List Exchange)
    (proofs : List Proof) : Prop :=
  ∃ k fee outputs payload signatures, w.keyset o.keyset = .ok k ∧
    Fee.charge w.chain t.proofs = .ok fee ∧ Planned w k (t.amount - fee) o outputs ∧
    swaps tr = [payload] ∧ (⟨.call (.swap payload), .ok signatures⟩ : Exchange) ∈ tr ∧
    payload.inputs = t.proofs.map (·.prepared false) ∧
    Proof.total payload.inputs - fee = (payload.outputs.map (·.amount)).sum ∧
    Redeemed S k (payload.outputs.zip signatures) outputs proofs ∧
    Proof.total proofs = t.amount - fee

/-- The amount was minted, each output with the signature at its place. -/
def Minted (S : Suite) (w : Wallet) (amount : Int) (quote : Json) (o : NewProofs)
    (tr : List Exchange) (proofs : List Proof) : Prop :=
  0 < amount ∧ Proof.total proofs = amount ∧
    ∃ k outputs signatures, w.keyset o.keyset = .ok k ∧ Planned w k amount o outputs ∧
      (⟨.call (.mint ⟨quote, outputs.map Output.message⟩), .ok signatures⟩ : Exchange) ∈ tr ∧
      signatures.length = outputs.length ∧
      List.Forall₂ (fun z q => z.1.toProof S z.2 k = .ok q ∧ q.amount = z.1.message.amount)
        (outputs.zip signatures) proofs

theorem receive_spec {t : Token} (hm : ∀ x ∈ tr, x.MadeAsAsked) (hs : ∀ x ∈ tr, x.SignedInFull)
    (h : (w.receive S t o).Yields tr (.ok proofs)) :
    t.amount = 0 ∧ proofs = [] ∧ tr = [] ∨ Received S w t o tr proofs := by
  refine (receive_inv h).imp_right ?_
  rintro ⟨k, fee, outputs, swapped, t₁, t₂, hget, hfee, hnet, hos, hswap, rfl, rfl⟩
  rw [List.forall_mem_append] at hm hs
  have hplanned := newOutputs_planned hnet hm.1 hos
  obtain ⟨signatures, hx, hone, hunpack⟩ := swap_inv hswap
  have hredeemed := redeemed_of_signed (hs.2 _ hx) (Swap.unpack_redeemed hunpack).1
  refine ⟨k, fee, outputs, _, signatures, hget, ?_, hplanned, ?_, List.mem_append_right _ hx, rfl, ?_,
    hredeemed, hredeemed.total.trans hplanned.total⟩
  · rw [← Fee.forProofs_eq_charge]
    exact hfee
  · rw [swaps_append, swaps_of_local (newOutputs_local ..) hos, hone]
    rfl
  · rw [Swap.payload_total, hplanned.total]
    change Proof.total (t.proofs.map (·.prepared false)) - fee = _
    rw [total_prepared]
    exact (Int.add_zero _).symm

theorem mint_spec {quote : Json} (hm : ∀ x ∈ tr, x.MadeAsAsked) (hs : ∀ x ∈ tr, x.SignedInFull)
    (h : (w.mint S amount quote o).Yields tr (.ok proofs)) : Minted S w amount quote o tr proofs := by
  obtain ⟨hpos, k, outputs, signatures, t₁, t₂, hget, hos, hx, rfl, hl, hproofs⟩ := mint_inv h
  rw [List.forall_mem_append] at hm hs
  have hplanned := newOutputs_planned hpos hm.1 hos
  obtain ⟨heach, htotal⟩ := toProofs_spec hl (hs.2 _ hx) hproofs
  exact ⟨hpos, htotal.trans hplanned.total, k, outputs, signatures, hget, hplanned,
    List.mem_append_right _ hx, hl, heach⟩

/-- A token that does not pay for its own swap is refused before anything is asked for. -/
theorem receive_refused {t : Token} {fee : Int} (hf : Fee.charge w.chain t.proofs = .ok fee)
    (hpos : 0 < t.amount) (hle : t.amount ≤ fee) : ∃ e, w.receive S t o = .done (.error e) := by
  unfold receive
  split
  · exact ⟨_, rfl⟩
  split
  · exact ⟨_, rfl⟩
  rw [if_neg (by omega)]
  cases hget : w.keyset o.keyset with
  | error e => exact ⟨e, rfl⟩
  | ok k =>
    have hfee : w.feeForProofs t.proofs = .ok fee := (Fee.forProofs_eq_charge ..).trans hf
    rw [hfee]
    exact ⟨.wallet (.feeExceedsToken t.amount), if_pos (by omega)⟩

/-- Whatever the wallet's settings, its seed, the policies, chance and time: a token that is
received is worth nothing, or is swapped once for proofs of its total less the mint's fee;
one whose fee takes all of it is refused before anyone is asked; and what is minted is the
amount. -/
theorem credits_exactly {σ : Type} (handle : (c : Command) → σ → c.Answer × σ) (s : σ) (S : Suite)
    (w : Wallet) (o : NewProofs) :
    (∀ (t : Token) (proofs : List Proof),
      (∀ x ∈ (receive S w t o).history handle s, x.MadeAsAsked ∧ x.SignedInFull) →
      ((receive S w t o).run handle s).1 = .ok proofs →
        t.amount = 0 ∧ proofs = [] ∧ (receive S w t o).history handle s = [] ∨
          Received S w t o ((receive S w t o).history handle s) proofs) ∧
      (∀ (t : Token) (fee : Int), Fee.charge w.chain t.proofs = .ok fee → 0 < t.amount →
        t.amount ≤ fee → (∃ e, ((receive S w t o).run handle s).1 = .error e) ∧
          (receive S w t o).history handle s = []) ∧
      ∀ (amount : Int) (quote : Json) (proofs : List Proof),
        (∀ x ∈ (mint S w amount quote o).history handle s, x.MadeAsAsked ∧ x.SignedInFull) →
        ((mint S w amount quote o).run handle s).1 = .ok proofs →
          Minted S w amount quote o ((mint S w amount quote o).history handle s) proofs := by
  refine ⟨?_, ?_, ?_⟩
  · intro t proofs hx h
    exact receive_spec (fun x hm => (hx x hm).1) (fun x hm => (hx x hm).2) (h ▸ yields_run handle _ s)
  · intro t fee hf hpos hle
    obtain ⟨e, he⟩ := receive_refused (S := S) (o := o) hf hpos hle
    rw [he]
    exact ⟨⟨e, rfl⟩, rfl⟩
  · intro amount quote proofs hx h
    exact mint_spec (fun x hm => (hx x hm).1) (fun x hm => (hx x hm).2) (h ▸ yields_run handle _ s)

/-- Random proofs of the only keyset, in these denominations if there are any. -/
def onesNew (denominations : List Int) : NewProofs :=
  ⟨⟨ones.id, none⟩, some (.random denominations), []⟩

/-- A token of two brings a unit, a token of one is refused, and two units are minted. -/
theorem credits_exactly_ones :
    let world := World.fresh none (.fresh [⟨ones, [(1, 1)], false⟩])
    let new : Proof := ⟨ones.id, 1, .str "", .str "", none, .null, none⟩
    let two : Token := ⟨"", onesProofs.drop 1, "sat", none⟩
    let one : Token := ⟨"", onesProofs.take 1, "sat", none⟩
    Received oneElement onesWallet two (onesNew [])
        ((receive oneElement onesWallet two (onesNew [])).history (World.handle oneElement) world)
        [new] ∧
      (∃ e, ((receive oneElement onesWallet one (onesNew [])).run (World.handle oneElement) world).1 =
        .error e) ∧
      Minted oneElement onesWallet 2 (.str "paid") (onesNew [1, 1])
        ((mint oneElement onesWallet 2 (.str "paid") (onesNew [1, 1])).history (World.handle oneElement)
          world) [new, new] := by
  intro world new two one
  have hasked : ∀ x ∈ (receive oneElement onesWallet two (onesNew [])).history
      (World.handle oneElement) world, x.MadeAsAsked ∧ x.SignedInFull := by decide +kernel
  have hreceived : ((receive oneElement onesWallet two (onesNew [])).run
      (World.handle oneElement) world).1 = .ok [new] := by decide +kernel
  have hfee : Fee.charge onesWallet.chain one.proofs = .ok 1 := by decide +kernel
  have hasked' : ∀ x ∈ (mint oneElement onesWallet 2 (.str "paid") (onesNew [1, 1])).history
      (World.handle oneElement) world, x.MadeAsAsked ∧ x.SignedInFull := by decide +kernel
  have hminted : ((mint oneElement onesWallet 2 (.str "paid") (onesNew [1, 1])).run
      (World.handle oneElement) world).1 = .ok [new, new] := by decide +kernel
  obtain ⟨hr, hf, -⟩ :=
    credits_exactly (World.handle oneElement) world oneElement onesWallet (onesNew [])
  obtain ⟨-, -, hm⟩ :=
    credits_exactly (World.handle oneElement) world oneElement onesWallet (onesNew [1, 1])
  refine ⟨?_, ?_, ?_⟩
  · obtain ⟨hzero, -⟩ | hone := hr two [new] hasked hreceived
    · exact absurd hzero (by decide)
    · exact hone
  · exact (hf one 1 hfee (by decide) (by decide)).1
  · exact hm 2 (.str "paid") [new, new] hasked' hminted

end Wallet

end Ecash
