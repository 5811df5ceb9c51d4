import Ecash.Proofs.Program.Alike
import Ecash.Proofs.Selection.Soundness
import Ecash.Wallet.Melt

/-!
# Nothing looks at the evidence of a proof

Lists of proofs that differ in nothing but evidence (`SameBare`) have one total, one
fee and one copy for the mint, and are selected from alike
(`Selection.alike_select`). So a send of the one is like a send of the other
(`Wallet.alike_send`), and to receive or melt them is the same program
(`Wallet.receive_eq`, `Wallet.melt_eq`).
-/
namespace Ecash

open Program

/-- The proof without its evidence. -/
def Proof.bare (q : Proof) : Proof := { q with dleq := none }

/-- The two lists differ in nothing but the evidence of their proofs. -/
def SameBare (ps qs : List Proof) : Prop := ps.map Proof.bare = qs.map Proof.bare

instance (ps qs : List Proof) : Decidable (SameBare ps qs) := inferInstanceAs (Decidable (_ = _))

namespace SameBare

variable {ps qs ps' qs' : List Proof}

theorem refl (ps : List Proof) : SameBare ps ps := rfl

theorem isEmpty_eq (h : SameBare ps qs) : ps.isEmpty = qs.isEmpty := by
  have hmap := congrArg List.isEmpty h
  rwa [List.isEmpty_map, List.isEmpty_map] at hmap

/-- What does not look at the evidence finds the same in both. -/
theorem map_eq {α : Type} {f : Proof → α} (h : SameBare ps qs) (hf : ∀ q, f q.bare = f q) :
    ps.map f = qs.map f := by
  have hbare (l : List Proof) : (l.map Proof.bare).map f = l.map f := by
    rw [List.map_map]
    exact List.map_congr_left fun q _ => hf q
  rw [← hbare ps, ← hbare qs, h]

theorem mapM_eq {α : Type} {f : Proof → Outcome α} (h : SameBare ps qs)
    (hf : ∀ q, f q.bare = f q) : ps.mapM f = qs.mapM f := by
  have hbare (l : List Proof) : (l.map Proof.bare).mapM f = l.mapM f := by
    rw [List.mapM_map]
    congr 1
    funext q
    exact hf q
  rw [← hbare ps, ← hbare qs, h]

theorem total_eq (h : SameBare ps qs) : Proof.total ps = Proof.total qs :=
  congrArg List.sum (h.map_eq fun _ => rfl)

theorem prepared_eq (h : SameBare ps qs) : ps.map (·.prepared false) = qs.map (·.prepared false) :=
  h.map_eq fun _ => rfl

theorem fee_eq (h : SameBare ps qs) (chain : KeyChain) :
    Fee.forProofs chain ps = Fee.forProofs chain qs := by
  unfold Fee.forProofs
  rw [h.mapM_eq (f := Fee.proofPpk chain) fun _ => rfl]

theorem offers_eq (h : SameBare ps qs) (chain : KeyChain) :
    Selection.offers chain ps = Selection.offers chain qs := by
  have hbare (l : List Proof) : Selection.offers chain (l.map Proof.bare) = Selection.offers chain l := by
    unfold Selection.offers
    rw [List.zipIdx_map, List.mapM_map]
    rfl
  rw [← hbare ps, ← hbare qs, h]

end SameBare

namespace Selection

theorem arranged_map {α β : Type} (f : α → β) (xs : List α) (order : List Nat) :
    arranged (xs.map f) order = (arranged xs order).map f := by
  unfold arranged
  rw [List.map_filterMap]
  refine List.filterMap_congr fun i _ => ?_
  rw [List.getElem?_map]

/-- A division does not look at the evidence. -/
theorem divide_bare (proofs : List Proof) (chosen : List Nat) :
    (divide (proofs.map Proof.bare) chosen).keep = (divide proofs chosen).keep.map Proof.bare ∧
      (divide (proofs.map Proof.bare) chosen).send = (divide proofs chosen).send.map Proof.bare := by
  refine ⟨?_, arranged_map ..⟩
  rw [divide_keep_eq, divide_keep_eq, arranged_map, List.zipIdx_map, List.filter_map, List.map_map,
    List.map_map]
  have hsame (z : Proof × Nat) :
      ((arranged proofs chosen).map Proof.bare).any z.1.bare.isSame =
        (arranged proofs chosen).any z.1.isSame := by
    rw [List.any_map]
    rfl
  simp only [Function.comp_def, Prod.map_fst, Prod.map_snd, id_eq, hsame]

/-- Two selections that differ in nothing but the evidence of proofs; what they keep
are some of the proofs that they were made from. -/
structure SameSelected (ps qs : List Proof) (x y : Partition) : Prop where
  keep : SameBare x.keep y.keep
  send : SameBare x.send y.send
  left : x.keep.Sublist ps
  right : y.keep.Sublist qs

variable {ps qs : List Proof}

theorem sameSelected_divide (h : SameBare ps qs) (chosen : List Nat) :
    SameSelected ps qs (divide ps chosen) (divide qs chosen) := by
  obtain ⟨hkeep, hsend⟩ := divide_bare ps chosen
  obtain ⟨hkeep', hsend'⟩ := divide_bare qs chosen
  have hdivide : divide (ps.map Proof.bare) chosen = divide (qs.map Proof.bare) chosen := by rw [h]
  refine ⟨?_, ?_, divide_keep_sublist .., divide_keep_sublist ..⟩
  · unfold SameBare
    rw [← hkeep, ← hkeep', hdivide]
  · unfold SameBare
    rw [← hsend, ← hsend', hdivide]

theorem alike_choose (h : SameBare ps qs) (chain : KeyChain) (l : Limits) (r : Request) :
    Alike (SameSelected ps qs) (choose chain l r ps) (choose chain l r qs) := by
  have hall : SameSelected ps qs ⟨ps, []⟩ ⟨qs, []⟩ :=
    ⟨h, SameBare.refl [], List.Sublist.refl _, List.Sublist.refl _⟩
  unfold choose
  rw [h.offers_eq chain]
  refine Alike.after fun started => Alike.after fun os => ?_
  dsimp only
  split
  · exact alike_pure hall
  · refine Alike.after fun most => Alike.after fun best => ?_
    cases best with
    | none => exact alike_pure hall
    | some b => exact Alike.after fun _ => alike_pure (sameSelected_divide h b.chosen)

/-- A selection does not look at the evidence. -/
theorem alike_select (h : SameBare ps qs) (chain : KeyChain) (l : Limits) (r : Request) :
    Alike (SameSelected ps qs) (select chain l r ps) (select chain l r qs) := by
  refine (alike_choose h chain l r).attempt.bind fun a b hab => Alike.after fun _ => ?_
  exact .done hab

end Selection

namespace Wallet

open Selection

variable {w : Wallet} {ps qs : List Proof}

/-! ## Sending -/

/-- The same is sent, and the same but for the evidence of proofs that were there
before is kept. -/
def SameSent (ps qs : List Proof) (x y : Partition) : Prop :=
  x.send = y.send ∧ ∃ change kept kept', x.keep = change ++ kept ∧ y.keep = change ++ kept' ∧
    SameBare kept kept' ∧ kept.Sublist ps ∧ kept'.Sublist qs

theorem alike_sendOffline (h : SameBare ps qs) (w : Wallet) (amount : Int) (includeFees exact : Bool) :
    Alike (SameSent ps qs) (w.sendOffline amount ps ⟨includeFees, exact, false⟩)
      (w.sendOffline amount qs ⟨includeFees, exact, false⟩) := by
  unfold sendOffline
  simp only [Bool.false_eq_true, if_false]
  rw [h.total_eq]
  split
  · exact alike_fail _
  · refine (alike_select h _ _ _).bind fun x y hxy => alike_pure ⟨?_, [], x.keep, y.keep, rfl, rfl, ?_⟩
    · exact hxy.send.prepared_eq
    · exact ⟨hxy.keep, hxy.left, hxy.right⟩

theorem alike_offlineWithFee (h : SameBare ps qs) (w : Wallet) (amount : Int) (includeFees : Bool) :
    Alike (fun x y => SameSent ps qs x.1 y.1 ∧ x.2 = y.2) (w.offlineWithFee amount ps includeFees)
      (w.offlineWithFee amount qs includeFees) := by
  refine (alike_sendOffline h w amount includeFees true).bind fun x y hxy => ?_
  dsimp only
  rw [hxy.1]
  split
  · exact Alike.after fun fee => alike_pure ⟨hxy, rfl⟩
  · exact Alike.after fun fee => alike_pure ⟨hxy, rfl⟩

theorem alike_trySendOffline (h : SameBare ps qs) (w : Wallet) (amount : Int) (o : SendOptions) :
    Alike (Option.Rel (SameSent ps qs)) (w.trySendOffline amount ps o)
      (w.trySendOffline amount qs o) := by
  unfold trySendOffline
  split
  · exact alike_pure .none
  · refine (alike_offlineWithFee h w amount o.includeFees).attempt.bind fun r r' hr => ?_
    cases hr with
    | ok hxy =>
      rename_i x y
      dsimp only
      rw [hxy.1.1, hxy.2]
      split
      · exact alike_pure (.some hxy.1)
      · exact alike_pure .none
    | error e =>
      cases e with
      | wallet e => exact alike_pure .none
      | _ => exact .done (.error _)

variable (S : Suite)

/-- A swap takes its inputs without their evidence. -/
theorem swap_eq (h : SameBare ps qs) (k : Keyset) (keep send : List Output) :
    swap S k ps keep send = swap S k qs keep send := by
  have hassemble : Swap.assemble ps keep send = Swap.assemble qs keep send := by
    unfold Swap.assemble
    rw [h.prepared_eq]
  unfold swap
  rw [hassemble]

theorem alike_sendBySwap (h : SameBare ps qs) (w : Wallet) (amount : Int) (o : SendOptions) :
    Alike (SameSent ps qs) (w.sendBySwap S amount ps o) (w.sendBySwap S amount qs o) := by
  refine Alike.after fun k => Alike.after fun target => ?_
  refine (alike_select h _ _ _).bind fun x y hxy => ?_
  have hfee : w.feeForProofs x.send = w.feeForProofs y.send := hxy.send.fee_eq w.chain
  have hheld : x.keep.map Proof.amount = y.keep.map Proof.amount := hxy.keep.map_eq fun _ => rfl
  rw [hxy.send.isEmpty_eq, hfee, hxy.send.total_eq, hheld]
  split
  · exact alike_fail _
  refine Alike.after fun fee => ?_
  dsimp only
  split
  · exact alike_fail _
  refine Alike.after fun rest => Alike.after fun specs => Alike.after fun outputs => ?_
  rw [swap_eq S hxy.send]
  refine Alike.after fun swapped => alike_pure ⟨rfl, swapped.keep, x.keep, y.keep, rfl, rfl, ?_⟩
  exact ⟨hxy.keep, hxy.left, hxy.right⟩

/-- A send of proofs with and without evidence is the same to everybody else. -/
theorem alike_send (h : SameBare ps qs) (w : Wallet) (amount : Int) (o : SendOptions) :
    Alike (SameSent ps qs) (w.send S amount ps o) (w.send S amount qs o) := by
  refine (alike_trySendOffline h w amount o).bind fun found found' hfound => ?_
  cases hfound with
  | some hxy => exact alike_pure hxy
  | none => exact alike_sendBySwap S h w amount o

/-! ## Receiving and melting -/

theorem receive_eq {t t' : Token} (hmint : t.mint = t'.mint) (hunit : t.unit = t'.unit)
    (h : SameBare t.proofs t'.proofs) (w : Wallet) (o : NewProofs) :
    w.receive S t o = w.receive S t' o := by
  have hamount : t.amount = t'.amount := h.total_eq
  have hfee : w.feeForProofs t.proofs = w.feeForProofs t'.proofs := h.fee_eq w.chain
  unfold receive
  simp only [hmint, hunit, hamount, hfee, swap_eq S h]

theorem melt_eq (h : SameBare ps qs) (w : Wallet) (quote : MeltQuote) (o : MeltOptions) :
    w.melt S quote ps o = w.melt S quote qs o := by
  unfold melt
  simp only [h.total_eq, h.prepared_eq]

end Wallet

end Ecash
