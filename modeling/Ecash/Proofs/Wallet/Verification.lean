import Ecash.Proofs.Wallet.Restore
import Ecash.Proofs.Wallet.Send

/-!
# Every new proof verifies

Outputs that the wallet makes are made from secrets, and so are those of the caller's
factories and policies that keep to it (`newOutputs_blinded`). Each operation turns the
mint's signatures into proofs of the outputs that they were made for: by their place on
the wire (`swap_obtained`), by their order (`toProofs_obtained`), or by their point
(`restore_obtained`). So a mint that signs with the keys of its keyset makes every proof
show the key for its amount times the point of its secret (`obtained_verify`).
-/
namespace Ecash

variable {S : Suite}

/-- The caller's outputs, if there are any, were made from secrets. -/
def Policy.FromSecrets (S : Suite) : Policy → Prop
  | .custom data => ∀ o ∈ data, o.Blinded S
  | _ => True

/-- What a factory makes was made from a secret. -/
def Exchange.FromSecret (S : Suite) : Exchange → Prop
  | ⟨.produce .., .ok o⟩ => o.Blinded S
  | _ => True

instance (S : Suite) : DecidablePred (Exchange.FromSecret S)
  | ⟨.produce .., .ok o⟩ => inferInstanceAs (Decidable (o.Blinded S))
  | ⟨.produce .., .error _⟩ | ⟨.shuffle _, _⟩ | ⟨.now, _⟩ | ⟨.freshSecret, _⟩ | ⟨.freshFactor, _⟩
  | ⟨.derive .., _⟩ | ⟨.reserve .., _⟩ | ⟨.advance .., _⟩ | ⟨.listeners _, _⟩ | ⟨.tell .., _⟩
  | ⟨.warn _, _⟩ | ⟨.record _, _⟩ | ⟨.call _, _⟩ => isTrue trivial

/-- The messages that go to the mint, with the signatures that come back for them. -/
def Exchange.signed : Exchange → List (BlindedMessage × BlindedSignature)
  | ⟨.call (.swap p), .ok signatures⟩ => p.outputs.zip signatures
  | ⟨.call (.mint p), .ok signatures⟩ => p.outputs.zip signatures
  | ⟨.call (.melt p), .ok quote⟩ => p.outputs.zip quote.change
  | ⟨.call (.restore asked), .ok answer⟩ =>
    asked.flatMap fun m => ((answer.1.zip answer.2).filter (·.1.b = m.b)).map fun x => (m, x.2)
  | _ => []

/-- The mint signs with the scalars behind its keys. -/
def Exchange.SignedWith {G : Type} [AddCommGroup G] (C : S.Group G) (scalar : Int → Int)
    (x : Exchange) : Prop :=
  ∀ m ∈ x.signed, C.Signed scalar m.1.b m.2

/-- The proof was made of an output that went to the mint and of the signature that came
back for it. -/
def Obtained (S : Suite) (scalar : Int → Int) (tr : List Exchange) (q : Proof) : Prop :=
  ∃ x ∈ tr, ∃ (o : Output) (s : BlindedSignature),
    o.Blinded S ∧ (o.message, s) ∈ x.signed ∧ o.Unblinded S scalar s q

theorem Obtained.mono {scalar : Int → Int} {t tr : List Exchange} {q : Proof}
    (h : Obtained S scalar t q) (ht : t ⊆ tr) : Obtained S scalar tr q := by
  obtain ⟨x, hx, h⟩ := h
  exact ⟨x, ht hx, h⟩

/-- Everything to send is new, and what there is to keep, but for some of the proofs that
were held before. -/
structure Renewed (S : Suite) (scalar : Int → Int) (tr : List Exchange) (held : List Proof)
    (found : Partition) : Prop where
  sent : ∀ q ∈ found.send, Obtained S scalar tr q
  kept : ∃ fresh old, found.keep = fresh ++ old ∧ (∀ q ∈ fresh, Obtained S scalar tr q) ∧
    old.Sublist held

theorem Renewed.of_list {scalar : Int → Int} {tr : List Exchange} {proofs : List Proof}
    (h : ∀ q ∈ proofs, Obtained S scalar tr q) : Renewed S scalar tr [] ⟨proofs, []⟩ :=
  ⟨by simp, proofs, [], (List.append_nil _).symm, h, List.Sublist.refl _⟩

theorem Renewed.mono {scalar : Int → Int} {t tr : List Exchange} {held : List Proof}
    {found : Partition} (h : Renewed S scalar t held found) (ht : t ⊆ tr) :
    Renewed S scalar tr held found := by
  obtain ⟨hsent, fresh, old, hkeep, hfresh, hold⟩ := h
  exact ⟨fun q hq => (hsent q hq).mono ht, fresh, old, hkeep, fun q hq => (hfresh q hq).mono ht, hold⟩

namespace Plan

variable {k : Keyset} {s : OutputSpec} {tr : List Exchange} {os : List Output}

theorem blinded_of_sources {parts : List Int} (hs : List.Forall₂ (Source S k tr) parts os)
    (hx : ∀ x ∈ tr, x.FromSecret S) : ∀ o ∈ os, o.Blinded S := by
  induction hs with
  | nil => simp
  | cons hsource _ ih =>
    refine List.forall_mem_cons.mpr ⟨?_, ih⟩
    obtain ⟨_, _, ho⟩ | ⟨_, hm⟩ := hsource
    · exact Output.blinded_of_secret ho
    · exact hx _ hm

theorem Filled.blinded (h : Filled S k s tr os) (hp : s.policy.FromSecrets S)
    (hx : ∀ x ∈ tr, x.FromSecret S) : ∀ o ∈ os, o.Blinded S := by
  cases h with
  | negative => simp
  | custom hd =>
    rw [hd] at hp
    exact hp
  | parts _ hs _ _ => exact blinded_of_sources hs hx

end Plan

namespace Wallet

open Program

variable {G : Type} [AddCommGroup G] {scalar : Int → Int} {w : Wallet} {k : Keyset}
  {tr : List Exchange}

/-! ## Outputs -/

theorem newOutputs_blinded {amount : Int} {o : NewProofs} {os : List Output}
    (hp : (o.policy.getD w.defaultPolicy).FromSecrets S) (hx : ∀ x ∈ tr, x.FromSecret S)
    (h : (w.newOutputs S k amount o).Yields tr (.ok os)) : ∀ o ∈ os, o.Blinded S := by
  obtain ⟨s, hs, h⟩ := yields_lift_bind_ok.mp h
  have hpolicy := (Plan.configure_spec hs).policy
  exact (Plan.finish_filled h).blinded (hpolicy ▸ hp) hx

/-! ## Signatures -/

/-- One output and the signature that came back for it. -/
theorem obtained_of_toProof (C : S.Group G) (hk : k.KeyedBy S scalar) {x : Exchange} {o : Output}
    {s : BlindedSignature} {q : Proof} (hx : x ∈ tr) (hsigned : x.SignedWith C scalar)
    (ho : o.Blinded S) (hs : (o.message, s) ∈ x.signed) (h : o.toProof S s k = .ok q) :
    Obtained S scalar tr q :=
  ⟨x, hx, o, s, ho, hs, ho.unblinded C hk (hsigned _ hs) h⟩

theorem swap_obtained (C : S.Group G) (hk : k.KeyedBy S scalar) {inputs : List Proof}
    {keep send : List Output} {p : Partition} (ho : ∀ o ∈ keep ++ send, o.Blinded S)
    (hs : ∀ x ∈ tr, x.SignedWith C scalar)
    (h : (swap S k inputs keep send).Yields tr (.ok p)) :
    ∀ q ∈ p.keep ++ p.send, Obtained S scalar tr q := by
  obtain ⟨signatures, hx, -, hu⟩ := swap_inv h
  obtain ⟨hkeep, hsend⟩ := Swap.unpack_redeemed hu
  have hnew : ∀ q ∈ p.keep ++ p.send, ∃ o ∈ keep ++ send, o.Redeemed S k
      ((Swap.assemble inputs keep send).payload.outputs.zip signatures) q :=
    fun _ hq => Outcome.mem_of_forall₂ (List.rel_append hkeep hsend) hq
  intro q hq
  obtain ⟨o, hm, s, hos, hproof⟩ := hnew q hq
  exact obtained_of_toProof C hk hx (hs _ hx) (ho o hm) hos hproof

theorem toProofs_obtained (C : S.Group G) (hk : k.KeyedBy S scalar) {x : Exchange}
    {os : List Output} {signatures : List BlindedSignature} {proofs : List Proof} (hx : x ∈ tr)
    (hs : x.SignedWith C scalar) (ho : ∀ o ∈ os, o.Blinded S)
    (hsigned : x.signed = (os.map Output.message).zip signatures)
    (h : toProofs S k os signatures = .ok proofs) : ∀ q ∈ proofs, Obtained S scalar tr q := by
  intro q hq
  obtain ⟨⟨o, s⟩, hm, hproof⟩ := Outcome.mem_of_mapM_ok hq h
  refine obtained_of_toProof C hk hx hs (ho o (List.of_mem_zip hm).1) ?_ hproof
  rw [hsigned, List.zip_map_left]
  exact List.mem_map_of_mem (f := Prod.map Output.message id) hm

theorem mem_hitsIn {f : Json → Option BlindedSignature} {start : Int} {os : List Output} {h : Hit}
    (hh : h ∈ hitsIn f start os) : h.output ∈ os ∧ f h.output.message.b = some h.signature := by
  induction os generalizing start with
  | nil => cases hh
  | cons o os ih =>
    rw [hitsIn, List.mem_append] at hh
    rcases hh with hh | hh
    · obtain ⟨s, hs, rfl⟩ := Option.map_eq_some_iff.mp (Option.mem_toList.mp hh)
      exact ⟨List.mem_cons_self, hs⟩
    · exact (ih hh).imp_left (List.mem_cons_of_mem _)

/-- What a lookup by point finds among the answers to a restore came back for the
message with this point. -/
theorem mem_signed_of_lookup {asked : List BlindedMessage}
    {answer : List BlindedMessage × List BlindedSignature} {table : List (Json × BlindedSignature)}
    (ht : signaturesByPoint answer.1 answer.2 = .ok table) {m : BlindedMessage} (hm : m ∈ asked)
    {s : BlindedSignature} (hs : table.lookup m.b = some s) :
    (m, s) ∈ Exchange.signed ⟨.call (.restore asked), .ok answer⟩ := by
  unfold signaturesByPoint at ht
  split at ht
  · cases ht
    have hmem := List.mem_reverse.mp (mem_of_lookup hs)
    rw [List.zip_map_left] at hmem
    obtain ⟨⟨m', s'⟩, hz, he⟩ := List.mem_map.mp hmem
    obtain ⟨hb, rfl⟩ := Prod.mk.inj he
    refine List.mem_flatMap.mpr ⟨m, hm, List.mem_map.mpr ⟨(m', s'), ?_, rfl⟩⟩
    exact List.mem_filter.mpr ⟨hz, decide_eq_true hb⟩
  · cases ht

/-- The proofs of a recovery, which finds signatures by point. -/
theorem restore_obtained (C : S.Group G) {start count : Int} {keyset : Json} {found : Restored}
    (hk : ∀ k, w.keyset keyset = .ok k → k.KeyedBy S scalar)
    (hf : ∀ x ∈ tr, x.FromSecret S) (hs : ∀ x ∈ tr, x.SignedWith C scalar)
    (h : (w.restore S start count keyset).Yields tr (.ok found)) :
    ∀ q ∈ found.proofs, Obtained S scalar tr q := by
  unfold restore at h
  split at h
  · exact absurd h not_yields_fail_ok
  obtain ⟨k, hget, h⟩ := yields_lift_bind_ok.mp h
  obtain ⟨os, t₁, t₂, rfl, hos, h⟩ := yields_bind_ok.mp h
  obtain ⟨answer, t₃, t₄, rfl, hc, h⟩ := yields_bind_ok.mp h
  have hx := List.mem_append_right t₁ (List.mem_append_left t₄ (mem_of_counted hc))
  split at h
  · exact absurd h not_yields_fail_ok
  obtain ⟨table, htable, h⟩ := yields_lift_bind_ok.mp h
  have hfound := (yields_lift.mp h).2
  rw [recover_eq, none_andHits] at hfound
  obtain ⟨proofs, hproofs, ⟨⟩⟩ := Outcome.bind_ok_iff.mp hfound
  have hblinded : ∀ o ∈ os, o.Blinded S :=
    Plan.blinded_of_sources (Plan.deriveAll_source hos) fun x hm => hf x (List.mem_append_left _ hm)
  intro q hq
  obtain ⟨hit, hmem, hproof⟩ := Outcome.mem_of_mapM_ok hq hproofs
  obtain ⟨ho, hlookup⟩ := mem_hitsIn hmem
  refine obtained_of_toProof C (hk k hget) hx (hs _ hx) (hblinded _ ho) ?_ hproof
  exact mem_signed_of_lookup htable (List.mem_map_of_mem ho) hlookup

/-! ## Operations -/

/-- An operation that ends with new proofs. -/
inductive Obtaining where
  | receive (token : Token) (o : NewProofs)
  | mint (amount : Int) (quote : Json) (o : NewProofs)
  | completeMelt (b : MeltBlanks)
  | restore (start count : Int) (keyset : Json)
  | send (amount : Int) (proofs : List Proof) (o : SendOptions)
  deriving DecidableEq, Repr

namespace Obtaining

/-- The keyset of the new proofs. -/
def keyset (w : Wallet) : Obtaining → Outcome Keyset
  | receive _ o | mint _ _ o => w.keyset o.keyset
  | completeMelt b => .ok b.keyset
  | restore _ _ id => w.keyset id
  | send _ _ o => w.keyset o.keyset

/-- The operation; only a send has proofs to hand over. -/
def program (S : Suite) (w : Wallet) : Obtaining → Program Partition
  | receive token o => do return ⟨← w.receive S token o, []⟩
  | mint amount quote o => do return ⟨← w.mint S amount quote o, []⟩
  | completeMelt b => do return ⟨(← Wallet.completeMelt S b).change, []⟩
  | restore start count id => do return ⟨(← w.restore S start count id).proofs, []⟩
  | send amount proofs o => w.send S amount proofs o

/-- The proofs that the caller gives to keep. -/
def held : Obtaining → List Proof
  | send _ proofs _ => proofs
  | _ => []

/-- Outputs of the caller were made from secrets, and blanks went to the mint as they are. -/
def FromSecrets (S : Suite) (w : Wallet) : Obtaining → Prop
  | receive _ o | mint _ _ o => (o.policy.getD w.defaultPolicy).FromSecrets S
  | completeMelt b => (∀ o ∈ b.outputs, o.Blinded S) ∧ b.payload.outputs = b.outputs.map Output.message
  | restore .. => True
  | send _ _ o => (o.sendPolicy.getD w.defaultPolicy).FromSecrets S ∧
      (o.keepPolicy.getD w.defaultPolicy).FromSecrets S

/-- A send comes to a swap. -/
def Swaps (tr : List Exchange) : Obtaining → Prop
  | send .. => swaps tr ≠ []
  | _ => True

end Obtaining

/-! ## What is obtained -/

variable {found : Partition}

/-- A token that is received comes to nothing or to one swap, for outputs of what the fee
leaves of it. -/
theorem receive_inv {token : Token} {o : NewProofs} {proofs : List Proof}
    (h : (w.receive S token o).Yields tr (.ok proofs)) :
    token.amount = 0 ∧ proofs = [] ∧ tr = [] ∨
      ∃ k fee outputs swapped t₁ t₂, w.keyset o.keyset = .ok k ∧
        w.feeForProofs token.proofs = .ok fee ∧ 0 < token.amount - fee ∧
        (w.newOutputs S k (token.amount - fee) o).Yields t₁ (.ok outputs) ∧
        (swap S k token.proofs outputs []).Yields t₂ (.ok swapped) ∧ tr = t₁ ++ t₂ ∧
        proofs = swapped.keep := by
  unfold receive at h
  split at h
  · exact absurd h not_yields_fail_ok
  split at h
  · exact absurd h not_yields_fail_ok
  split at h
  · rename_i hzero
    obtain ⟨rfl, rfl⟩ := yields_pure_ok.mp h
    exact .inl ⟨hzero, rfl, rfl⟩
  obtain ⟨k, hget, h⟩ := yields_lift_bind_ok.mp h
  obtain ⟨fee, hfee, h⟩ := yields_lift_bind_ok.mp h
  dsimp only at h
  split at h
  · exact absurd h not_yields_fail_ok
  rename_i hnet
  obtain ⟨outputs, t₁, t₂, rfl, hos, h⟩ := yields_bind_ok.mp h
  obtain ⟨swapped, hswap, rfl⟩ := yields_bind_pure_ok.mp h
  exact .inr ⟨k, fee, outputs, swapped, t₁, t₂, hget, hfee, not_le.mp hnet, hos, hswap, rfl, rfl⟩

/-- What is minted was asked for once, and as many signatures came back as outputs went
there. -/
theorem mint_inv {amount : Int} {quote : Json} {o : NewProofs} {proofs : List Proof}
    (h : (w.mint S amount quote o).Yields tr (.ok proofs)) :
    0 < amount ∧ ∃ (k : Keyset) (outputs : List Output) (signatures : List BlindedSignature)
        (t₁ t₂ : List Exchange), w.keyset o.keyset = .ok k ∧
      (w.newOutputs S k amount o).Yields t₁ (.ok outputs) ∧
      (⟨.call (.mint ⟨quote, outputs.map Output.message⟩), .ok signatures⟩ : Exchange) ∈ t₂ ∧
      tr = t₁ ++ t₂ ∧ signatures.length = outputs.length ∧
      toProofs S k outputs signatures = .ok proofs := by
  unfold mint at h
  split at h
  · exact absurd h not_yields_fail_ok
  rename_i hpos
  obtain ⟨k, hget, h⟩ := yields_lift_bind_ok.mp h
  obtain ⟨outputs, t₁, t₂, rfl, hos, h⟩ := yields_bind_ok.mp h
  obtain ⟨signatures, t₂, t₃, rfl, hc, h⟩ := yields_bind_ok.mp h
  split at h
  · obtain ⟨_, _, _, -, -, h⟩ := yields_bind_ok.mp h
    exact absurd h not_yields_fail_ok
  rename_i hl
  exact ⟨not_le.mp hpos, k, outputs, signatures, t₁, t₂ ++ t₃, hget, hos,
    List.mem_append_left _ (mem_of_counted hc), rfl, not_not.mp hl, (yields_lift.mp h).2⟩

theorem receive_obtained (C : S.Group G) {token : Token} {o : NewProofs} {proofs : List Proof}
    (hk : ∀ k, w.keyset o.keyset = .ok k → k.KeyedBy S scalar)
    (hp : (o.policy.getD w.defaultPolicy).FromSecrets S) (hf : ∀ x ∈ tr, x.FromSecret S)
    (hs : ∀ x ∈ tr, x.SignedWith C scalar) (h : (w.receive S token o).Yields tr (.ok proofs)) :
    ∀ q ∈ proofs, Obtained S scalar tr q := by
  obtain ⟨-, rfl, -⟩ | ⟨k, fee, os, swapped, t₁, t₂, hget, -, -, hos, hswap, rfl, rfl⟩ := receive_inv h
  · simp
  rw [List.forall_mem_append] at hf hs
  have hblinded := newOutputs_blinded hp hf.1 hos
  intro q hq
  have hq' := swap_obtained C (hk k hget) (by simpa using hblinded) hs.2 hswap q (List.mem_append_left _ hq)
  exact hq'.mono (List.subset_append_right _ _)

theorem mint_obtained (C : S.Group G) {amount : Int} {quote : Json} {o : NewProofs}
    {proofs : List Proof} (hk : ∀ k, w.keyset o.keyset = .ok k → k.KeyedBy S scalar)
    (hp : (o.policy.getD w.defaultPolicy).FromSecrets S) (hf : ∀ x ∈ tr, x.FromSecret S)
    (hs : ∀ x ∈ tr, x.SignedWith C scalar) (h : (w.mint S amount quote o).Yields tr (.ok proofs)) :
    ∀ q ∈ proofs, Obtained S scalar tr q := by
  obtain ⟨-, k, os, signatures, t₁, t₂, hget, hos, hx, rfl, -, hproofs⟩ := mint_inv h
  rw [List.forall_mem_append] at hf
  have hblinded := newOutputs_blinded hp hf.1 hos
  have hx := List.mem_append_right t₁ hx
  exact toProofs_obtained C (hk k hget) hx (hs _ hx) hblinded rfl hproofs

theorem completeMelt_obtained (C : S.Group G) {b : MeltBlanks} {melted : Melted}
    (hk : b.keyset.KeyedBy S scalar) (ho : ∀ o ∈ b.outputs, o.Blinded S)
    (hb : b.payload.outputs = b.outputs.map Output.message) (hs : ∀ x ∈ tr, x.SignedWith C scalar)
    (h : (completeMelt S b).Yields tr (.ok melted)) : ∀ q ∈ melted.change, Obtained S scalar tr q := by
  obtain ⟨response, t₁, t₂, rfl, hc, h⟩ := yields_bind_ok.mp h
  have hx := List.mem_append_left t₂ (mem_of_counted hc)
  split at h
  · obtain ⟨_, _, _, -, -, h⟩ := yields_bind_ok.mp h
    exact absurd h not_yields_fail_ok
  · obtain ⟨change, hchange, h⟩ := yields_lift_bind_ok.mp h
    obtain ⟨-, rfl⟩ := yields_pure_ok.mp h
    refine toProofs_obtained C hk hx (hs _ hx) ho ?_ hchange
    rw [← hb]
    rfl

theorem sendBySwap_obtained (C : S.Group G) {amount : Int} {proofs : List Proof} {o : SendOptions}
    (hk : ∀ k, w.keyset o.keyset = .ok k → k.KeyedBy S scalar)
    (hsend : (o.sendPolicy.getD w.defaultPolicy).FromSecrets S)
    (hkeep : (o.keepPolicy.getD w.defaultPolicy).FromSecrets S) (hf : ∀ x ∈ tr, x.FromSecret S)
    (hs : ∀ x ∈ tr, x.SignedWith C scalar)
    (h : (sendBySwap S w amount proofs o).Yields tr (.ok found)) :
    Renewed S scalar tr proofs found := by
  obtain ⟨t₁, t₂, s, swapped, hswap, rfl, rfl⟩ := sendBySwap_inv h
  rw [List.forall_mem_append] at hf hs
  have hsent := s.filledSent.blinded ((Plan.configure_spec s.targeted).policy ▸ hsend) hf.1
  have hchange := s.filledChange.blinded ((Plan.configure_spec s.left).policy ▸ hkeep) hf.1
  have hnew :=
    swap_obtained C (hk s.keyset s.known) (List.forall_mem_append.mpr ⟨hchange, hsent⟩) hs.2 hswap
  have hobtained : ∀ q ∈ swapped.keep ++ swapped.send, Obtained S scalar (t₁ ++ t₂) q :=
    fun q hq => (hnew q hq).mono (List.subset_append_right _ _)
  rw [List.forall_mem_append] at hobtained
  obtain ⟨u, hsel⟩ := s.chosen
  exact ⟨hobtained.2, swapped.keep, s.selected.keep, rfl, hobtained.1, Selection.select_keep hsel⟩

theorem obtaining_renewed (C : S.Group G) {op : Obtaining}
    (hk : ∀ k, op.keyset w = .ok k → k.KeyedBy S scalar) (hp : op.FromSecrets S w)
    (hf : ∀ x ∈ tr, x.FromSecret S) (hs : ∀ x ∈ tr, x.SignedWith C scalar) (hswaps : op.Swaps tr)
    (h : (op.program S w).Yields tr (.ok found)) : Renewed S scalar tr op.held found := by
  cases op with
  | send amount proofs o =>
    obtain ⟨offline, t₁, t₂, rfl, ho, h⟩ := yields_bind_ok.mp h
    have hnone := swaps_of_local ((only_trySendOffline ..).mono fun _ => Command.Quiet.local) ho
    rw [List.forall_mem_append] at hf hs
    cases offline with
    | some found' =>
      obtain ⟨rfl, rfl⟩ := yields_pure_ok.mp h
      rw [List.append_nil] at hswaps
      exact absurd hnone hswaps
    | none =>
      exact (sendBySwap_obtained C hk hp.1 hp.2 hf.2 hs.2 h).mono (List.subset_append_right _ _)
  | receive token o =>
    obtain ⟨proofs, hrun, rfl⟩ := yields_bind_pure_ok.mp h
    exact Renewed.of_list (receive_obtained C hk hp hf hs hrun)
  | mint amount quote o =>
    obtain ⟨proofs, hrun, rfl⟩ := yields_bind_pure_ok.mp h
    exact Renewed.of_list (mint_obtained C hk hp hf hs hrun)
  | completeMelt b =>
    obtain ⟨melted, hrun, rfl⟩ := yields_bind_pure_ok.mp h
    exact Renewed.of_list (completeMelt_obtained C (hk _ rfl) hp.1 hp.2 hs hrun)
  | restore start count id =>
    obtain ⟨restored, hrun, rfl⟩ := yields_bind_pure_ok.mp h
    exact Renewed.of_list (restore_obtained C hk hf hs hrun)

/-- Whatever the blinding factor, a signature on a blinded secret comes out as the key
times the secret's point. So where the mint signs with the keys of its keyset, and what
the caller adds was made from secrets, every new proof shows its secret's point times the
key for its amount. -/
theorem obtained_verify {σ : Type} (handle : (c : Command) → σ → c.Answer × σ) (s : σ) (S : Suite)
    (C : S.Group G) (scalar : Int → Int) (w : Wallet) (op : Obtaining) (found : Partition)
    (hk : ∀ k, op.keyset w = .ok k → k.KeyedBy S scalar) (hp : op.FromSecrets S w)
    (hf : ∀ x ∈ (op.program S w).history handle s, x.FromSecret S)
    (hs : ∀ x ∈ (op.program S w).history handle s, x.SignedWith C scalar)
    (hswaps : op.Swaps ((op.program S w).history handle s))
    (h : ((op.program S w).run handle s).1 = .ok found) :
    (∀ secret r y b, S.hashToCurve secret = .ok y → S.blind secret r = .ok b → ∀ a,
      S.unblind (S.mul (scalar a) b) r (S.mul (scalar a) S.base) = S.mul (scalar a) y) ∧
    Renewed S scalar ((op.program S w).history handle s) op.held found :=
  ⟨fun _ _ _ _ hy hb a => Suite.unblind_signed_blind C hy hb (scalar a),
    obtaining_renewed C hk hp hf hs hswaps (h ▸ yields_run handle _ s)⟩

/-- Proofs of one and of two are minted. The scalars behind the keys are three and five. -/
theorem obtained_verify_residues :
    let op := Obtaining.mint 3 (.str "paid") ⟨⟨.null, none⟩, some (.deterministic 0 [1, 2]), []⟩
    let world := World.fresh (some []) (.fresh [⟨threeAndFive, [(1, 3), (2, 5)], false⟩])
    Renewed .residues (2 * · + 1)
      ((op.program .residues residueWallet).history (World.handle .residues) world) []
      ⟨[⟨.str "01", 1, .str "0000", .str "0249", none, .null, none⟩,
        ⟨.str "01", 2, .str "0100", .str "025d", none, .null, none⟩], []⟩ := by
  intro op world
  have hk : ∀ k, op.keyset residueWallet = .ok k → k.KeyedBy .residues (2 * · + 1) := by
    intro k h
    have hthree : op.keyset residueWallet = .ok threeAndFive := by decide +kernel
    cases h.symm.trans hthree
    have hall : ∀ x ∈ threeAndFive.keys, Output.readPoint .residues x.2 =
        .ok (Suite.residues.mul (2 * x.1 + 1) Suite.residues.base) := by decide +kernel
    intro a key hkey _
    obtain ⟨l₁, l₂, hkeys, -⟩ := List.lookup_eq_some_iff.mp hkey
    exact hall (a, key) (by rw [hkeys]; simp)
  have hf : ∀ x ∈ (op.program .residues residueWallet).history (World.handle .residues) world,
      x.FromSecret .residues := by decide +kernel
  have hs : ∀ x ∈ (op.program .residues residueWallet).history (World.handle .residues) world,
      ∀ m ∈ x.signed, (Output.readPoint .residues m.1.b).map (Suite.residues.mul (2 * m.2.amount + 1)) =
        Output.readPoint .residues m.2.c := by decide +kernel
  have hrun : ((op.program .residues residueWallet).run (World.handle .residues) world).1 =
      .ok ⟨[⟨.str "01", 1, .str "0000", .str "0249", none, .null, none⟩,
        ⟨.str "01", 2, .str "0100", .str "025d", none, .null, none⟩], []⟩ := by decide +kernel
  exact (obtained_verify (World.handle .residues) world .residues Suite.residuesGroup (2 * · + 1)
    residueWallet op _ hk trivial hf (fun x hx m hm => Suite.residues_signed (hs x hx m hm)) trivial hrun).2

end Wallet

end Ecash
