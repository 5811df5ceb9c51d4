import Ecash.Proofs.Blinding
import Ecash.Proofs.Selection.Division
import Ecash.Swap
import Mathlib.Algebra.BigOperators.Group.List.Basic

/-!
# Swaps there and back

On the wire the outputs stand in the order `Before`, which does not depend on
the order in which they were planned except among equal amounts. `unpack` hands
every output the signature made at its place on the wire (`unpack_ok_iff`), so
assembling and unpacking is a round trip (`assemble_round_trip`).
-/
namespace Ecash.Swap

open Selection (arranged arranged_of_entries)

variable {outputs : List Output}

/-! ## The order on the wire -/

/-- Planning positions with the smaller amount first, and the earlier one of two
with equal amounts. -/
def Before (outputs : List Output) (i j : Nat) : Prop :=
  ∃ a b, outputs[i]? = some a ∧ outputs[j]? = some b ∧
    (a.message.amount < b.message.amount ∨ a.message.amount = b.message.amount ∧ i < j)

/-- Outputs with their planning positions, as they stand on the wire. -/
def wire (outputs : List Output) : List (Output × Nat) :=
  outputs.zipIdx.mergeSort fun a b => decide (a.1.message.amount ≤ b.1.message.amount)

theorem wire_perm (outputs : List Output) : (wire outputs).Perm outputs.zipIdx :=
  List.mergeSort_perm _ _

theorem getElem?_of_mem_wire {z : Output × Nat} (h : z ∈ wire outputs) : outputs[z.2]? = some z.1 :=
  List.mem_zipIdx_iff_getElem?.mp ((wire_perm outputs).subset h)

theorem wireOrder_perm (outputs : List Output) :
    (wireOrder outputs).Perm (List.range outputs.length) := by
  have h := (wire_perm outputs).map Prod.snd
  rwa [List.zipIdx_map_snd, ← List.range_eq_range'] at h

theorem mem_wireOrder {i : Nat} {o : Output} (h : outputs[i]? = some o) : i ∈ wireOrder outputs := by
  rw [(wireOrder_perm outputs).mem_iff, List.mem_range]
  exact (List.getElem?_eq_some_iff.mp h).1

theorem arranged_wireOrder (outputs : List Output) :
    arranged outputs (wireOrder outputs) = (wire outputs).map Prod.fst :=
  arranged_of_entries fun _ => getElem?_of_mem_wire

/-- The sort is stable: sorting with the positions attached is the same. -/
theorem wire_pairwise (outputs : List Output) : (wire outputs).Pairwise fun a b =>
    a.1.message.amount ≤ b.1.message.amount ∧
      (b.1.message.amount ≤ a.1.message.amount → a.2 ≤ b.2) := by
  let le (a b : Output × Nat) : Bool := decide (a.1.message.amount ≤ b.1.message.amount)
  have hs : (outputs.zipIdx.zipIdx.mergeSort (List.zipIdxLE le)).Pairwise
      fun x y => List.zipIdxLE le x y = true := by
    refine List.pairwise_mergeSort ?_ ?_ _
    · refine List.zipIdxLE_trans fun a b c hab hbc => ?_
      simp only [le, decide_eq_true_eq] at hab hbc ⊢
      omega
    · refine List.zipIdxLE_total fun a b => ?_
      simp only [le, Bool.or_eq_true, decide_eq_true_eq]
      omega
  have hz : ∀ x ∈ outputs.zipIdx.zipIdx.mergeSort (List.zipIdxLE le), x.1.2 = x.2 := by
    intro x hx
    have hx := List.mem_zipIdx_iff_getElem?.mp (List.mem_mergeSort.mp hx)
    rw [List.getElem?_zipIdx, Option.map_eq_some_iff] at hx
    obtain ⟨o, -, ho⟩ := hx
    rw [← ho, Nat.zero_add]
  have hw : wire outputs = (outputs.zipIdx.zipIdx.mergeSort (List.zipIdxLE le)).map Prod.fst :=
    List.mergeSort_zipIdx.symm
  rw [hw, List.pairwise_map]
  refine hs.imp_of_mem fun {x y} hx hy hxy => ?_
  rw [hz x hx, hz y hy]
  simp only [List.zipIdxLE, le, decide_eq_true_eq] at hxy
  split at hxy
  · rename_i h
    refine ⟨h, fun h' => ?_⟩
    rw [if_pos h'] at hxy
    simpa using hxy
  · cases hxy

theorem wireOrder_pairwise (outputs : List Output) :
    (wireOrder outputs).Pairwise (Before outputs) := by
  have hn : ((wire outputs).map Prod.snd).Nodup :=
    (wireOrder_perm outputs).nodup_iff.mpr List.nodup_range
  change ((wire outputs).map Prod.snd).Pairwise _
  rw [List.pairwise_map]
  refine ((wire_pairwise outputs).and (List.pairwise_map.mp hn)).imp_of_mem ?_
  rintro ⟨a, i⟩ ⟨b, j⟩ ha hb ⟨⟨hle, hst⟩, hij⟩
  refine ⟨a, b, getElem?_of_mem_wire ha, getElem?_of_mem_wire hb, ?_⟩
  dsimp only at hle hst hij ⊢
  omega

example : wireOrder ([4, 1, 2, 1].map fun amount => ⟨⟨amount, .null, .null⟩, 0, []⟩) =
    [1, 3, 2, 0] := by cbv

/-- The amounts on the wire: sorted, so they do not tell in which order or for
whom the outputs were planned. -/
theorem amounts_of_perm {planned : List Output}
    (h : (outputs.map (·.message.amount)).Perm (planned.map (·.message.amount))) :
    (wire outputs).map (·.1.message.amount) = (wire planned).map (·.1.message.amount) := by
  have hs (os : List Output) : ((wire os).map (·.1.message.amount)).Pairwise (· ≤ ·) :=
    List.pairwise_map.mpr ((wire_pairwise os).imp And.left)
  have hp (os : List Output) :
      ((wire os).map (·.1.message.amount)).Perm (os.map (·.message.amount)) := by
    have hm := ((wire_perm os).map Prod.fst).map (·.message.amount)
    rwa [List.zipIdx_map_fst, List.map_map] at hm
  refine List.Perm.eq_of_pairwise ?_ (hs _) (hs _) (((hp _).trans h).trans (hp _).symm)
  intro a b _ _ hab hba
  omega

/-! ## Unpacking -/

variable {S : Suite} {k : Keyset}

/-- Every output finds the proof from the signature at its place in the order. -/
theorem unblind_spec {order : List Nat} {signatures : List BlindedSignature}
    {found : List (Nat × Proof)} (h : unblind S k outputs order signatures = .ok found) :
    ∀ i ∈ order, ∀ o s, outputs[i]? = some o → signatures[order.idxOf i]? = some s →
      ∃ q, o.toProof S s k = .ok q ∧ found.lookup i = some q := by
  induction order generalizing signatures found with
  | nil => simp
  | cons j order ih =>
    intro i hi o s ho hs
    cases signatures with
    | nil => simp at hs
    | cons t signatures =>
      unfold unblind at h
      by_cases hij : i = j
      · subst hij
        rw [List.idxOf_cons_self, List.getElem?_cons_zero, Option.some.injEq] at hs
        subst hs
        rw [ho] at h
        obtain ⟨q, hq, h⟩ := Outcome.bind_ok_iff.mp h
        obtain ⟨rest, -, h⟩ := Outcome.bind_ok_iff.mp h
        cases h
        exact ⟨q, hq, List.lookup_cons_self⟩
      · have hi : i ∈ order := (List.mem_cons.mp hi).resolve_left hij
        rw [List.idxOf_cons_ne _ (Ne.symm hij), List.getElem?_cons_succ] at hs
        split at h
        · exact ih h i hi o s ho hs
        · obtain ⟨q, -, h⟩ := Outcome.bind_ok_iff.mp h
          obtain ⟨rest, hr, h⟩ := Outcome.bind_ok_iff.mp h
          cases h
          obtain ⟨q', hq', hl⟩ := ih hr i hi o s ho hs
          refine ⟨q', hq', ?_⟩
          rw [List.lookup_cons, beq_false_of_ne hij, hl]

theorem unblind_total {order : List Nat} {signatures : List BlindedSignature} (hn : order.Nodup)
    (h : ∀ i ∈ order, ∀ o s, outputs[i]? = some o → signatures[order.idxOf i]? = some s →
      ∃ q, o.toProof S s k = .ok q) :
    ∃ found, unblind S k outputs order signatures = .ok found := by
  induction order generalizing signatures with
  | nil => exact ⟨[], by simp [unblind]⟩
  | cons j order ih =>
    cases signatures with
    | nil => exact ⟨[], by simp [unblind]⟩
    | cons t signatures =>
      obtain ⟨hj, hn⟩ := List.nodup_cons.mp hn
      have hrest : ∀ i ∈ order, ∀ o s, outputs[i]? = some o → signatures[order.idxOf i]? = some s →
          ∃ q, o.toProof S s k = .ok q := by
        intro i hi o s ho hs
        have hij : i ≠ j := fun e => hj (e ▸ hi)
        refine h i (List.mem_cons_of_mem _ hi) o s ho ?_
        rwa [List.idxOf_cons_ne _ (Ne.symm hij), List.getElem?_cons_succ]
      obtain ⟨rest, hr⟩ := ih hn hrest
      unfold unblind
      cases ho : outputs[j]? with
      | none => exact ⟨rest, hr⟩
      | some o =>
        obtain ⟨q, hq⟩ := h j List.mem_cons_self o t ho (by simp)
        dsimp only
        rw [hq, hr]
        exact ⟨(j, q) :: rest, rfl⟩

/-- The output planned at `i` stands on the wire where the order has `i`. -/
theorem wire_idxOf {i : Nat} {o : Output} (h : outputs[i]? = some o) :
    (wire outputs)[(wireOrder outputs).idxOf i]? = some (o, i) := by
  have hw : (wireOrder outputs)[(wireOrder outputs).idxOf i]? = some i :=
    List.getElem?_idxOf (mem_wireOrder h)
  change ((wire outputs).map Prod.snd)[_]? = _ at hw
  rw [List.getElem?_map, Option.map_eq_some_iff] at hw
  obtain ⟨⟨o', _⟩, hz, rfl⟩ := hw
  have ho := getElem?_of_mem_wire (List.mem_of_getElem? hz)
  rw [h] at ho
  cases ho
  exact hz

/-- Proofs of outputs that are planned from position `n` on, each from the
signature that `f` makes on the output's own message at its place on the wire. -/
def ownProofs (S : Suite) (k : Keyset) (order : List Nat)
    (f : Nat → BlindedMessage → BlindedSignature) (n : Nat) (outputs : List Output) :
    Outcome (List Proof) :=
  (outputs.zipIdx n).mapM fun (o, i) => o.toProof S (f (order.idxOf i) o.message) k

variable {inputs : List Proof} {keep send : List Output}

theorem payload_outputs (inputs : List Proof) (keep send : List Output) :
    (assemble inputs keep send).payload.outputs = (wire (keep ++ send)).map (·.1.message) := by
  change (arranged (keep ++ send) (wireOrder (keep ++ send))).map Output.message = _
  rw [arranged_wireOrder, List.map_map]
  rfl

/-- At an output's place on the wire stands the signature on its own message. -/
theorem getElem?_signed (f : Nat → BlindedMessage → BlindedSignature) {i : Nat} {o : Output}
    (h : outputs[i]? = some o) :
    (((wire outputs).map (·.1.message)).mapIdx f)[(wireOrder outputs).idxOf i]? =
      some (f ((wireOrder outputs).idxOf i) o.message) := by
  rw [List.getElem?_mapIdx, List.getElem?_map, wire_idxOf h]
  rfl

theorem ownProofs_of_unblind (f : Nat → BlindedMessage → BlindedSignature) {found : List (Nat × Proof)}
    (h : unblind S k outputs (wireOrder outputs) (((wire outputs).map (·.1.message)).mapIdx f) =
      .ok found) :
    ownProofs S k (wireOrder outputs) f 0 outputs = .ok (inPlanningOrder outputs.length found) := by
  unfold inPlanningOrder ownProofs
  rw [List.range_eq_range', ← List.zipIdx_map_snd 0 outputs, List.filterMap_map]
  refine Outcome.mapM_of_lookup fun ⟨o, i⟩ hz => ?_
  have ho := List.mem_zipIdx_iff_getElem?.mp hz
  exact unblind_spec h i (mem_wireOrder ho) o _ ho (getElem?_signed f ho)

theorem unblind_signed (f : Nat → BlindedMessage → BlindedSignature) {qs : List Proof} :
    ownProofs S k (wireOrder outputs) f 0 outputs = .ok qs ↔
      ∃ found, unblind S k outputs (wireOrder outputs)
        (((wire outputs).map (·.1.message)).mapIdx f) = .ok found ∧
        qs = inPlanningOrder outputs.length found := by
  constructor
  · intro h
    have hn := (wireOrder_perm outputs).nodup_iff.mpr List.nodup_range
    obtain ⟨found, hu⟩ := unblind_total hn fun i _ o s ho ht => by
      rw [getElem?_signed f ho, Option.some.injEq] at ht
      subst ht
      have hz : (o, i) ∈ outputs.zipIdx := List.mem_zipIdx_iff_getElem?.mpr ho
      obtain ⟨q, -, hq⟩ := Outcome.exists_of_mapM_ok hz h
      exact ⟨q, hq⟩
    refine ⟨found, hu, ?_⟩
    rw [ownProofs_of_unblind f hu, Except.ok.injEq] at h
    exact h.symm
  · rintro ⟨found, hu, rfl⟩
    exact ownProofs_of_unblind f hu

/-- Unpacking gives every output, in planning order, the proof from the signature
on its own message. -/
theorem unpack_ok_iff (inputs : List Proof) (keep send : List Output)
    (f : Nat → BlindedMessage → BlindedSignature) (p : Partition) :
    (assemble inputs keep send).unpack S
        ((assemble inputs keep send).payload.outputs.mapIdx f) k = .ok p ↔
      ownProofs S k (assemble inputs keep send).order f 0 keep = .ok p.keep ∧
        ownProofs S k (assemble inputs keep send).order f keep.length send = .ok p.send := by
  have hl : (((wire (keep ++ send)).map (·.1.message)).mapIdx f).length =
      (wireOrder (keep ++ send)).length := by simp [wireOrder, wire]
  have happ (qs : List Proof) : ownProofs S k (wireOrder (keep ++ send)) f 0 (keep ++ send) = .ok qs ↔
      ownProofs S k (wireOrder (keep ++ send)) f 0 keep = .ok (qs.take keep.length) ∧
        ownProofs S k (wireOrder (keep ++ send)) f keep.length send = .ok (qs.drop keep.length) := by
    unfold ownProofs
    rw [List.zipIdx_append, Outcome.mapM_append_ok_iff, List.length_zipIdx, Nat.zero_add]
  rw [payload_outputs]
  change (if _ ≠ (wireOrder (keep ++ send)).length then _ else _) = _ ↔ _
  rw [if_neg (not_not.mpr hl), Outcome.bind_ok_iff]
  constructor
  · rintro ⟨found, hu, hp⟩
    cases hp
    exact (happ _).mp ((unblind_signed f).mpr ⟨found, hu, rfl⟩)
  · rintro ⟨hk, hs⟩
    have hlen : p.keep.length = keep.length := by
      simpa using (Outcome.mapM_ok_iff.mp hk).length_eq.symm
    have ht : (p.keep ++ p.send).take keep.length = p.keep := List.take_left' hlen
    have hd : (p.keep ++ p.send).drop keep.length = p.send := List.drop_left' hlen
    have h := (happ (p.keep ++ p.send)).mpr ⟨by rwa [ht], by rwa [hd]⟩
    obtain ⟨found, hu, hq⟩ := (unblind_signed f).mp h
    refine ⟨found, hu, ?_⟩
    change Except.ok (Partition.mk ((inPlanningOrder (keep ++ send).length found).take keep.length)
      ((inPlanningOrder (keep ++ send).length found).drop keep.length)) = _
    rw [← hq, ht, hd]

theorem payload_total (inputs : List Proof) (keep send : List Output) :
    ((assemble inputs keep send).payload.outputs.map (·.amount)).sum =
      Output.total keep + Output.total send := by
  have hw := ((wire_perm (keep ++ send)).map Prod.fst).map (·.message.amount)
  rw [List.zipIdx_map_fst, List.map_map] at hw
  rw [payload_outputs, List.map_map, Output.total, Output.total, ← List.sum_append, ← List.map_append]
  exact hw.sum_eq

/-- Signatures for the amount and keyset of each output. -/
def Signed (ms : List BlindedMessage) (ss : List BlindedSignature) : Prop :=
  List.Forall₂ (fun m s => s.amount = m.amount ∧ s.keyset = m.keyset) ms ss

instance Signed.decidable (ms : List BlindedMessage) (ss : List BlindedSignature) :
    Decidable (Signed ms ss) :=
  inferInstanceAs (Decidable (List.Forall₂ _ ms ss))

theorem ownProofs_spec {order : List Nat} {f : Nat → BlindedMessage → BlindedSignature} {n : Nat}
    {qs : List Proof} (hf : ∀ w m, (f w m).amount = m.amount ∧ (f w m).keyset = m.keyset)
    (h : ownProofs S k order f n outputs = .ok qs) :
    qs.map (fun q => (q.amount, q.keyset)) =
      outputs.map fun o => (o.message.amount, o.message.keyset) := by
  have hq : ∀ (z : Output × Nat) q, z.1.toProof S (f (order.idxOf z.2) z.1.message) k = .ok q →
      (q.amount, q.keyset) = (z.1.message.amount, z.1.message.keyset) := by
    intro z q h
    obtain ⟨_, _, _, _, _, -, -, -, -, -, -, hk, ha, -⟩ := Output.toProof_inv h
    rw [ha, hk, (hf _ _).1, (hf _ _).2]
  rw [Outcome.map_of_mapM_ok hq h]
  conv_rhs => rw [← List.zipIdx_map_fst n outputs, List.map_map]
  rfl

/-- With signatures for the outputs' own amounts and keysets, the proofs have the
amounts and keysets that were planned. -/
theorem unpack_spec {signatures : List BlindedSignature} {p : Partition}
    (hs : Signed (assemble inputs keep send).payload.outputs signatures)
    (h : (assemble inputs keep send).unpack S signatures k = .ok p) :
    p.keep.map (fun q => (q.amount, q.keyset)) =
        keep.map (fun o => (o.message.amount, o.message.keyset)) ∧
      p.send.map (fun q => (q.amount, q.keyset)) =
        send.map fun o => (o.message.amount, o.message.keyset) := by
  let f (w : Nat) (m : BlindedMessage) : BlindedSignature :=
    { (signatures[w]?).getD ⟨0, .null, .null, none⟩ with amount := m.amount, keyset := m.keyset }
  have hf : signatures = (assemble inputs keep send).payload.outputs.mapIdx f := by
    refine List.ext_getElem? fun w => ?_
    rw [List.getElem?_mapIdx]
    rcases Nat.lt_or_ge w signatures.length with hw | hw
    · have hw' := hw
      rw [← hs.length_eq] at hw'
      obtain ⟨ha, hk⟩ := hs.get hw' hw
      rw [List.getElem?_eq_getElem hw, List.getElem?_eq_getElem hw']
      simp only [List.get_eq_getElem] at ha hk
      simp [f, hw, ← ha, ← hk]
    · rw [List.getElem?_eq_none hw, List.getElem?_eq_none (hs.length_eq ▸ hw)]
      rfl
  rw [hf] at h
  obtain ⟨hk, hd⟩ := (unpack_ok_iff inputs keep send f p).mp h
  exact ⟨ownProofs_spec (fun _ _ => ⟨rfl, rfl⟩) hk, ownProofs_spec (fun _ _ => ⟨rfl, rfl⟩) hd⟩

theorem unpack_wrong_length (t : Swap) {signatures : List BlindedSignature}
    (h : signatures.length ≠ t.order.length) :
    t.unpack S signatures k =
      refuse (.signaturesForOutputs signatures.length t.order.length) := by
  unfold unpack
  rw [if_pos h]

/-- Outputs that stand on the wire among others become proofs, one by one. -/
theorem ownProofs_redeemed {all : List Output} {signatures : List BlindedSignature}
    {f : Nat → BlindedMessage → BlindedSignature} {n : Nat} {qs : List Proof}
    (ho : ∀ z ∈ outputs.zipIdx n, all[z.2]? = some z.1)
    (hf : signatures = ((wire all).map (·.1.message)).mapIdx f)
    (h : ownProofs S k (wireOrder all) f n outputs = .ok qs) :
    List.Forall₂ (Output.Redeemed S k (((wire all).map (·.1.message)).zip signatures)) outputs qs := by
  obtain ⟨hl, hz⟩ := List.forall₂_iff_zip.mp (Outcome.mapM_ok_iff.mp h)
  rw [← List.zipIdx_map_fst n outputs, List.forall₂_map_left_iff]
  refine List.forall₂_iff_zip.mpr ⟨hl, ?_⟩
  rintro ⟨o, i⟩ q hmem
  have hm : ((wire all).map (·.1.message))[(wireOrder all).idxOf i]? = some o.message := by
    rw [List.getElem?_map, wire_idxOf (ho (o, i) (List.of_mem_zip hmem).1)]
    rfl
  have hs : signatures[(wireOrder all).idxOf i]? = some (f ((wireOrder all).idxOf i) o.message) := by
    rw [hf, List.getElem?_mapIdx, hm]
    rfl
  exact ⟨_, List.mem_of_getElem? (List.getElem?_zip_eq_some.mpr ⟨hm, hs⟩), hz hmem⟩

/-- Each output, in planning order, becomes a proof by the signature that came back for
its message. -/
theorem unpack_redeemed {signatures : List BlindedSignature} {p : Partition}
    (h : (assemble inputs keep send).unpack S signatures k = .ok p) :
    List.Forall₂ (Output.Redeemed S k ((assemble inputs keep send).payload.outputs.zip signatures))
        keep p.keep ∧
      List.Forall₂ (Output.Redeemed S k ((assemble inputs keep send).payload.outputs.zip signatures))
        send p.send := by
  have hl : signatures.length = (assemble inputs keep send).order.length := by
    by_contra hl
    rw [unpack_wrong_length _ hl] at h
    exact absurd h Outcome.refuse_ne_ok
  have hl' : signatures.length = (assemble inputs keep send).payload.outputs.length := by
    rw [hl, payload_outputs]
    simp [assemble, wireOrder, wire]
  let f (w : Nat) (_ : BlindedMessage) : BlindedSignature :=
    (signatures[w]?).getD ⟨0, .null, .null, none⟩
  have hf : signatures = (assemble inputs keep send).payload.outputs.mapIdx f := by
    refine List.ext_getElem (by simpa using hl') fun w hw _ => ?_
    simp [f, hw]
  rw [hf] at h
  obtain ⟨hkeep, hsend⟩ := (unpack_ok_iff inputs keep send f p).mp h
  have hplace : ∀ z ∈ (keep ++ send).zipIdx, (keep ++ send)[z.2]? = some z.1 :=
    fun _ hz => List.mem_zipIdx_iff_getElem?.mp hz
  rw [List.zipIdx_append, List.forall_mem_append, Nat.zero_add] at hplace
  rw [payload_outputs] at hf ⊢
  exact ⟨ownProofs_redeemed hplace.1 hf hkeep, ownProofs_redeemed hplace.2 hf hsend⟩

/-! ## The round trip -/

/-- The swap keeps track of where its outputs, those to keep first, stand on the
wire, and finds them again. -/
structure Tracks (t : Swap) (keep send : List Output) : Prop where
  positions : t.order.Perm (List.range (keep ++ send).length)
  sorted : t.order.Pairwise (Before (keep ++ send))
  outputs : t.payload.outputs.map some = t.order.map fun i => (keep ++ send)[i]?.map Output.message
  kept : ∀ (w i : Nat), t.order[w]? = some i → t.keepVector[w]? = some (decide (i < keep.length))
  returned : ∀ S k f p, t.unpack S (t.payload.outputs.mapIdx f) k = .ok p ↔
    ownProofs S k t.order f 0 keep = .ok p.keep ∧
      ownProofs S k t.order f keep.length send = .ok p.send
  refused : ∀ S k (signatures : List BlindedSignature),
    signatures.length ≠ t.payload.outputs.length →
      ∃ e : WalletError, e.kind = .mint ∧ t.unpack S signatures k = refuse e

theorem length_payload_outputs (inputs : List Proof) (keep send : List Output) :
    (assemble inputs keep send).payload.outputs.length = (keep ++ send).length := by
  rw [payload_outputs, List.length_map, (wire_perm _).length_eq, List.length_zipIdx]

/-- Any swap is tracked, and the amounts on the wire depend on nothing but the
amounts of all outputs taken together. -/
theorem assemble_round_trip (inputs : List Proof) (keep send : List Output) :
    (assemble inputs keep send).Tracks keep send ∧
      ∀ inputs' keep' send', ((keep' ++ send').map (·.message.amount)).Perm
          ((keep ++ send).map (·.message.amount)) →
        (assemble inputs' keep' send').payload.outputs.map (·.amount) =
          (assemble inputs keep send).payload.outputs.map (·.amount) := by
  refine ⟨⟨wireOrder_perm _, wireOrder_pairwise _, ?_, ?_, fun S k f p => unpack_ok_iff .., ?_⟩, ?_⟩
  · rw [payload_outputs]
    change _ = ((wire (keep ++ send)).map Prod.snd).map _
    rw [List.map_map, List.map_map]
    refine List.map_congr_left fun z hz => ?_
    simp only [Function.comp_apply, getElem?_of_mem_wire hz, Option.map_some]
  · intro w i hi
    unfold keepVector
    rw [List.getElem?_map, hi]
    rfl
  · intro S k signatures hl
    rw [length_payload_outputs, ← List.length_range (n := (keep ++ send).length),
      ← (wireOrder_perm (keep ++ send)).length_eq] at hl
    exact ⟨_, rfl, unpack_wrong_length _ hl⟩
  · intro inputs' keep' send' hp
    rw [payload_outputs, payload_outputs, List.map_map, List.map_map]
    exact amounts_of_perm hp

end Ecash.Swap
