import Ecash.Proofs.Json.Same
import Ecash.Proofs.Outcome
import Ecash.Proofs.Program.Run
import Ecash.Wallet.Basic

/-!
# The key chain is a table

No two keysets of a chain count as one (`Keyed`); adding a keyset and loading
those of a mint keep it that way. Whatever keyset a chain gives, it gives again
for that keyset's own id (`Keyed.get_id`).
-/
namespace Ecash.KeyChain

/-- Keysets with different ids, each of which can be looked up. -/
structure Keyed (c : KeyChain) : Prop where
  distinct : c.keysets.Pairwise fun j k => j.id.same k.id = false
  keys : ∀ k ∈ c.keysets, k.id.isKey = true

theorem mem_put {k x : Keyset} {ks : List Keyset} (h : x ∈ put k ks) : x = k ∨ x ∈ ks := by
  induction ks with
  | nil => exact .inl (List.mem_singleton.mp h)
  | cons j rest ih =>
    unfold put at h
    split at h <;> rcases List.mem_cons.mp h with rfl | h
    · exact .inl rfl
    · exact .inr (List.mem_cons_of_mem _ h)
    · exact .inr List.mem_cons_self
    · exact (ih h).imp id (List.mem_cons_of_mem _)

theorem put_distinct (k : Keyset) {ks : List Keyset}
    (h : ks.Pairwise fun j k => j.id.same k.id = false) :
    (put k ks).Pairwise fun j k => j.id.same k.id = false := by
  induction ks with
  | nil => exact List.pairwise_singleton _ _
  | cons j rest ih =>
    obtain ⟨hj, hrest⟩ := List.pairwise_cons.mp h
    unfold put
    split
    · rename_i hjk
      refine List.pairwise_cons.mpr ⟨fun x hx => ?_, hrest⟩
      -- what counts as `k` would count as `j`, in whose place `k` comes
      by_contra hkx
      have hjx := Json.same_trans hjk (Bool.eq_true_of_not_eq_false hkx)
      rw [hj x hx] at hjx
      cases hjx
    · rename_i hjk
      refine List.pairwise_cons.mpr ⟨fun x hx => ?_, ih hrest⟩
      rcases mem_put hx with rfl | hx
      · exact Bool.eq_false_of_not_eq_true hjk
      · exact hj x hx

theorem Keyed.empty (unit : Json) : (empty unit).Keyed := ⟨.nil, by simp [KeyChain.empty]⟩

theorem Keyed.add {c c' : KeyChain} (hc : c.Keyed) {k : Keyset} (h : c.add k = .ok c') :
    c'.Keyed := by
  unfold KeyChain.add at h
  split at h
  · cases h; exact hc
  · split at h
    · cases h
    · rename_i hk
      cases h
      refine ⟨put_distinct k hc.distinct, fun x hx => ?_⟩
      rcases mem_put hx with rfl | hx
      · simpa using hk
      · exact hc.keys x hx

theorem Keyed.addAll {c c' : KeyChain} (hc : c.Keyed) {f : Keyset → Outcome Keyset}
    {ks : List Keyset} {tr : List Exchange}
    (h : (ks.foldlM (fun c k => do return ← c.add (← f k)) c : Program KeyChain).Yields tr (.ok c')) :
    c'.Keyed := by
  induction ks generalizing c tr with
  | nil =>
    obtain ⟨-, rfl⟩ := Program.yields_pure_ok.mp h
    exact hc
  | cons k ks ih =>
    simp only [List.foldlM_cons, Program.yields_bind_ok] at h
    obtain ⟨c₁, _, _, -, ⟨_, _, _, -, -, hadd⟩, h⟩ := h
    exact ih (hc.add (Program.yields_lift.mp hadd).2) h

/-- Loading keeps a chain a table, whatever the mint publishes. -/
theorem Keyed.load {c c' : KeyChain} (hc : c.Keyed) {tr : List Exchange}
    (h : c.load.Yields tr (.ok c')) : c'.Keyed := by
  obtain ⟨ks, _, _, -, -, h⟩ := Program.yields_bind_ok.mp h
  obtain ⟨_, _, _, -, -, h⟩ := Program.yields_bind_ok.mp h
  obtain ⟨keys, _, _, -, -, h⟩ := Program.yields_bind_ok.mp h
  exact hc.addAll h

/-! ## Looking up -/

variable {c : KeyChain} {id : Json} {k : Keyset}

theorem mem_usable {ks us : List Keyset} (h : usable ks = .ok us) (hk : k ∈ us) :
    k ∈ ks ∧ k.hasHexId = .ok true := by
  induction ks generalizing us with
  | nil => cases h; cases hk
  | cons j rest ih =>
    unfold usable at h
    dsimp only at h
    split at h
    · obtain ⟨ok, hj, h⟩ := Outcome.bind_ok_iff.mp h
      obtain ⟨others, ho, h⟩ := Outcome.bind_ok_iff.mp h
      cases h
      cases hx : j.hasHexId with
      | error e => rw [hx] at hj; cases hj
      | ok b =>
        rw [hx] at hj
        have hok : (b && j.hasKeys) = ok := Except.ok.inj hj
        split at hk
        · rcases List.mem_cons.mp hk with rfl | hk
          · refine ⟨List.mem_cons_self, ?_⟩
            simp_all
          · exact (ih ho hk).imp_left (List.mem_cons_of_mem _)
        · exact (ih ho hk).imp_left (List.mem_cons_of_mem _)
    · obtain ⟨_, ⟨⟩, h⟩ := Outcome.bind_ok_iff.mp h
      obtain ⟨others, ho, h⟩ := Outcome.bind_ok_iff.mp h
      cases h
      exact (ih ho hk).imp_left (List.mem_cons_of_mem _)

theorem mem_cheapestOf (k : Keyset) (ks : List Keyset) : cheapestOf k ks = k ∨ cheapestOf k ks ∈ ks := by
  induction ks generalizing k with
  | nil => exact .inl rfl
  | cons j rest ih =>
    unfold cheapestOf
    split <;> rcases ih _ with h | h
    · exact .inr (h ▸ List.mem_cons_self)
    · exact .inr (List.mem_cons_of_mem _ h)
    · exact .inl h
    · exact .inr (List.mem_cons_of_mem _ h)

/-- A hexadecimal id is not the empty text. -/
theorem truthy_of_hasHexId (h : k.hasHexId = .ok true) : k.id.truthy = true := by
  unfold Keyset.hasHexId at h
  split at h
  · rename_i s hs
    rw [hs]
    simp only [Json.truthy, bne_iff_ne, ne_eq]
    rintro rfl
    cases h
  · cases h

theorem mem_of_get (h : c.get id = .ok k) : k ∈ c.keysets ∧ k.id.truthy = true := by
  unfold get at h
  split at h
  · unfold cheapest at h
    split at h
    · cases h
    · obtain ⟨us, hu, h⟩ := Outcome.bind_ok_iff.mp h
      cases us with
      | nil => exact absurd h Outcome.refuse_ne_ok
      | cons j rest =>
        cases h
        have hm : cheapestOf j rest ∈ j :: rest := List.mem_cons.mpr (mem_cheapestOf j rest)
        exact (mem_usable hu hm).imp_right truthy_of_hasHexId
  · rename_i hid
    split at h
    · cases h
    · split at h
      · rename_i j hj
        cases h
        refine ⟨List.mem_of_find?_eq_some hj, ?_⟩
        have hs := List.find?_some hj
        rw [Json.truthy_of_same hs]
        simpa using hid
      · cases h

theorem find?_id {ks : List Keyset} (h : ks.Pairwise fun j k => j.id.same k.id = false)
    (hk : k ∈ ks) : ks.find? (·.id.same k.id) = some k := by
  induction ks with
  | nil => cases hk
  | cons j rest ih =>
    obtain ⟨hj, hrest⟩ := List.pairwise_cons.mp h
    rcases List.mem_cons.mp hk with rfl | hk
    · exact List.find?_cons_of_pos (Json.same_refl _)
    · rw [List.find?_cons_of_neg (by simp [hj k hk]), ih hrest hk]

/-- A chain gives a keyset again for the id of the keyset. -/
theorem Keyed.get_id (hc : c.Keyed) (h : c.get id = .ok k) : c.get k.id = .ok k := by
  obtain ⟨hk, ht⟩ := mem_of_get h
  unfold get
  rw [ht, hc.keys k hk, find?_id hc.distinct hk]
  rfl

/-- The rate for the keyset's id is that of the keyset. -/
theorem Keyed.ppk_id (hc : c.Keyed) (h : c.get id = .ok k) : Fee.ppk c k.id = .ok k.inputFeePpk := by
  unfold Fee.ppk
  rw [(mem_of_get h).2, hc.get_id h]
  rfl

end Ecash.KeyChain

/-- A wallet finds a keyset again by the id of the keyset. -/
theorem Ecash.Wallet.keyset_id {w : Wallet} {id : Json} {k : Keyset} (hw : w.chain.Keyed)
    (h : w.keyset id = .ok k) : w.keyset k.id = .ok k := by
  unfold Wallet.keyset Json.orElse
  rw [if_pos (KeyChain.mem_of_get h).2]
  exact hw.get_id h
