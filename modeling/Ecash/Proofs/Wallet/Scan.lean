import Ecash.Proofs.Wallet.Restore
import Mathlib.Tactic.Linarith

/-!
# What a scan finds

A scan goes on from batch to batch, so what it finds are the hits of one range of
counters. A batch leaves it where it may go on (`Scannable.next_of_eq_nil`,
`Scannable.next_of_ne_nil`), and it ends with enough batches without hits in a row
(`scan_gives`).
-/
namespace Ecash

variable {S : Suite} {seed : Bytes} {id : String}

namespace Wallet

open Program

variable {issued : Json → Option BlindedSignature}

/-! ## Hits of the seed -/

/-- The hit of a counter of the seed, if the mint has signed its output. -/
def seedHit? (S : Suite) (seed : Bytes) (id : String) (issued : Json → Option BlindedSignature)
    (c : Int) : Option Hit :=
  (Output.ofSeed S seed id 0 c).toOption.bind (hit? issued c)

/-- The hits of `n` counters, from `start` on. -/
def seedHits (S : Suite) (seed : Bytes) (id : String) (issued : Json → Option BlindedSignature)
    (start : Int) (n : Nat) : List Hit :=
  (countersFrom start n).filterMap (seedHit? S seed id issued)

theorem counter_of_seedHit? {c : Int} {h : Hit} (hh : seedHit? S seed id issued c = some h) :
    h.counter = c := by
  obtain ⟨o, -, ho⟩ := Option.bind_eq_some_iff.mp hh
  exact counter_of_hit? ho

theorem lt_of_seedHit? {c : Int} (h : (seedHit? S seed id issued c).isSome) : c < 2 ^ 64 := by
  unfold seedHit? at h
  cases ho : Output.ofSeed S seed id 0 c with
  | error e =>
    rw [ho] at h
    cases h
  | ok o => exact (Output.ofSeed_counter ho).2

theorem seedHits_add (start : Int) (m n : Nat) : seedHits S seed id issued start (m + n) =
    seedHits S seed id issued start m ++ seedHits S seed id issued (start + m) n := by
  rw [seedHits, countersFrom_add, List.filterMap_append]
  rfl

theorem seedHits_eq_nil {start : Int} {n : Nat} : seedHits S seed id issued start n = [] ↔
    ∀ c, start ≤ c → c < start + n → seedHit? S seed id issued c = none := by
  unfold seedHits
  simp only [List.filterMap_eq_nil_iff, mem_countersFrom, and_imp]

theorem exists_of_seedHits_ne_nil {start : Int} {n : Nat} (h : seedHits S seed id issued start n ≠ []) :
    ∃ c, start ≤ c ∧ c < start + n ∧ (seedHit? S seed id issued c).isSome := by
  rw [Ne, seedHits_eq_nil] at h
  push Not at h
  obtain ⟨c, h₁, h₂, hc⟩ := h
  exact ⟨c, h₁, h₂, Option.isSome_iff_ne_none.mpr hc⟩

theorem andThen_none (found : Restored) : found.andThen .none = found := by
  simp [Restored.andThen, Restored.none]

theorem andHits_nil (k : Keyset) (found : Restored) : found.andHits S k [] = .ok found :=
  congrArg Except.ok (andThen_none found)

/-- Hits that are found one after the other. -/
theorem andHits_append (k : Keyset) (found : Restored) (earlier later : List Hit) :
    found.andHits S k (earlier ++ later) = (do
      let r ← Restored.ofHits S k earlier
      (found.andThen r).andHits S k later) := by
  unfold Restored.andHits Restored.ofHits Restored.andThen
  rw [List.mapM_append, List.map_append, List.getLast?_append]
  simp only [bind_assoc, pure_bind, List.append_assoc, Option.or_assoc]

/-- A batch without hits has no proofs, one with hits has some. -/
theorem isEmpty_of_ofHits {k : Keyset} {hits : List Hit} {r : Restored}
    (h : Restored.ofHits S k hits = .ok r) : r.proofs.isEmpty = hits.isEmpty := by
  obtain ⟨proofs, hp, h⟩ := Outcome.bind_ok_iff.mp h
  cases h
  have hl := (Outcome.mapM_ok_iff.mp hp).length_eq
  cases hits <;> cases proofs <;> simp_all

/-! ## Batches -/

variable {A : Exchange → Prop} {w : Wallet} {k : Keyset} {keyset : Json}

/-- Where the seed has outputs, a restore recovers the hits of its range. -/
theorem restore_gives_hits (hw : w.seeded = true) (hk : w.keyset keyset = .ok k)
    (hid : k.id = .str id) (hs : ∀ x, A x → x.FromSeed S seed) (hm : ∀ x, A x → x.Recalls issued)
    (start : Int) (n : Nat) (hd : ∀ c ∈ countersFrom start n, ∃ o, Output.ofSeed S seed id 0 c = .ok o) :
    (w.restore S start n keyset).Gives A
      (Restored.ofHits S k (seedHits S seed id issued start n)) := by
  obtain ⟨os, hos⟩ := Output.allOfSeed_total hd
  have h := restore_gives hw hk hid hs hm start n
  rw [Int.toNat_natCast, hos] at h
  have hhits : hitsIn issued start os = seedHits S seed id issued start n :=
    hitsIn_of_seed hos fun c _ o ho => by rw [seedHit?, ho]; rfl
  rw [← hhits]
  exact h

/-- A batch with hits decides which was the last. -/
theorem andThen_of_ofHits {hits : List Hit} {r : Restored} (h : Restored.ofHits S k hits = .ok r)
    (hne : hits ≠ []) (found : Restored) : found.andThen r = ⟨found.proofs ++ r.proofs, r.last⟩ := by
  obtain ⟨proofs, -, h⟩ := Outcome.bind_ok_iff.mp h
  cases h
  unfold Restored.andThen
  rw [List.getLast?_eq_some_getLast (by simpa using hne), Option.some_or]

theorem scan_stops {required empty : Int} (h : required ≤ empty) (size : Int) (n : Nat)
    (counter : Int) (found : Restored) :
    (scan S w keyset size required n counter empty found).Gives A (found.andHits S k []) := by
  rw [andHits_nil]
  cases n <;> rw [scan, if_pos h] <;> exact gives_pure _

/-- One batch: what it finds is added, and it counts as empty when it finds nothing. -/
theorem scan_step (hw : w.seeded = true) (hk : w.keyset keyset = .ok k) (hid : k.id = .str id)
    (hs : ∀ x, A x → x.FromSeed S seed) (hm : ∀ x, A x → x.Recalls issued) {size n : Nat}
    {required counter empty : Int} (hlt : empty < required)
    (hd : ∀ c ∈ countersFrom counter size, ∃ o, Output.ofSeed S seed id 0 c = .ok o)
    {later : List Hit} (h : ∀ found, (scan S w keyset size required n (counter + size)
      (if seedHits S seed id issued counter size = [] then empty + 1 else 0) found).Gives A
        (found.andHits S k later)) (found : Restored) :
    (scan S w keyset size required (n + 1) counter empty found).Gives A
      (found.andHits S k (seedHits S seed id issued counter size ++ later)) := by
  rw [andHits_append, scan, if_neg (Int.not_le.mpr hlt)]
  refine (restore_gives_hits hw hk hid hs hm counter size hd).bind fun r hr => ?_
  rw [isEmpty_of_ofHits hr]
  by_cases hhit : seedHits S seed id issued counter size = []
  · rw [hhit] at hr
    obtain rfl : Restored.none = r := Except.ok.inj hr
    rw [andThen_none, hhit]
    rw [if_pos hhit] at h
    exact h found
  · rw [andThen_of_ofHits hr hhit, List.isEmpty_eq_false_iff.mpr hhit]
    rw [if_neg hhit] at h
    exact h _

/-! ## The whole scan -/

section Scan

variable (S seed id issued) (size : Nat) (required : Int)

/-- Where a scan stands that has `empty` batches without hits behind it and may take `n` more:
the seed has outputs as far as it may look, which is so many batches from here or from a
hit, only the next `blocks` batches may have hits, and it ends before `n` more are taken. -/
structure Scannable (n blocks : Nat) (counter empty : Int) : Prop where
  outputs : ∀ c, counter ≤ c → (c < counter + (required - empty) * size ∨
    ∃ m, counter ≤ m ∧ (seedHit? S seed id issued m).isSome ∧ c < m + (required + 1) * size) →
      ∃ o, Output.ofSeed S seed id 0 c = .ok o
  unsigned : ∀ c, counter + blocks * size ≤ c → seedHit? S seed id issued c = none
  nonneg : 0 ≤ empty
  enough : required + blocks ≤ n + if blocks = 0 then empty else 0

/-- Of `j` batches from a counter on, and `empty` ones before them, the last are without hits,
as many as it takes to end a scan. -/
structure Ending (counter empty : Int) (j : Nat) : Prop where
  enough : required ≤ j + empty
  unsigned : ∀ c, counter ≤ c → counter + (j - required) * size ≤ c → c < counter + j * size →
    seedHit? S seed id issued c = none

variable {S seed id issued size required} {n blocks j : Nat} {counter empty : Int}

theorem Scannable.unsigned_next (h : Scannable S seed id issued size required (n + 1) blocks counter empty) :
    ∀ c, counter + size + (blocks - 1 : Nat) * size ≤ c → seedHit? S seed id issued c = none := by
  intro c hc
  refine h.unsigned c ?_
  rcases blocks with _ | blocks
  · simp at hc ⊢
    omega
  · simp only [Nat.add_sub_cancel, Nat.cast_succ, Int.add_mul, Int.one_mul] at hc ⊢
    omega

/-- A batch without hits is counted. -/
theorem Scannable.next_of_eq_nil
    (h : Scannable S seed id issued size required (n + 1) blocks counter empty) :
    Scannable S seed id issued size required n (blocks - 1) (counter + size) (empty + 1) where
  outputs := by
    rintro c hc (hlt | ⟨m, hm, hsome, hlt⟩)
    · refine h.outputs c (by omega) (.inl ?_)
      linarith
    · exact h.outputs c (by omega) (.inr ⟨m, by omega, hsome, hlt⟩)
  unsigned := h.unsigned_next
  nonneg := Int.le_add_one h.nonneg
  enough := by
    have henough := h.enough
    have hnonneg := h.nonneg
    split at henough <;> split <;> omega

/-- A batch with hits is one of the blocks, and the count starts again. -/
theorem Scannable.next_of_ne_nil
    (h : Scannable S seed id issued size required (n + 1) blocks counter empty)
    (hne : seedHits S seed id issued counter size ≠ []) :
    Scannable S seed id issued size required n (blocks - 1) (counter + size) 0 := by
  obtain ⟨m, hle, hlt, hsome⟩ := exists_of_seedHits_ne_nil hne
  refine ⟨?_, h.unsigned_next, Int.le_refl 0, ?_⟩
  · rintro c hc (hlt' | ⟨m', hm', hsome', hlt'⟩)
    · refine h.outputs c (by omega) (.inr ⟨m, hle, hsome, ?_⟩)
      linarith
    · exact h.outputs c (by omega) (.inr ⟨m', by omega, hsome', hlt'⟩)
  · have hblocks : blocks ≠ 0 := by
      rintro rfl
      rw [h.unsigned m (by simpa using hle)] at hsome
      cases hsome
    have henough := h.enough
    rw [if_neg hblocks] at henough
    split <;> omega

theorem ending_zero (h : required ≤ empty) : Ending S seed id issued size required counter empty 0 :=
  ⟨by omega, fun c h₁ _ h₂ => by omega⟩

theorem Ending.next_of_eq_nil
    (h : Ending S seed id issued size required (counter + size) (empty + 1) j)
    (hnil : seedHits S seed id issued counter size = []) :
    Ending S seed id issued size required counter empty (j + 1) := by
  have henough := h.enough
  refine ⟨by omega, fun c h₁ h₂ h₃ => ?_⟩
  push_cast at h₂ h₃
  by_cases hc : c < counter + size
  · exact seedHits_eq_nil.mp hnil c h₁ hc
  · exact h.unsigned c (by omega) (by linarith) (by linarith)

theorem Ending.next_of_zero (h : Ending S seed id issued size required (counter + size) 0 j)
    (hempty : 0 ≤ empty) : Ending S seed id issued size required counter empty (j + 1) := by
  have henough := h.enough
  refine ⟨by omega, fun c h₁ h₂ h₃ => ?_⟩
  push_cast at h₂ h₃
  have hge : 0 ≤ (j - required) * (size : Int) := Int.mul_nonneg (by omega) (by omega)
  exact h.unsigned c (by linarith) (by linarith) (by linarith)

/-- A scan finds the hits of the batches that it goes through, and ends when enough of
them in a row are without hits. -/
theorem scan_gives (hw : w.seeded = true) (hk : w.keyset keyset = .ok k) (hid : k.id = .str id)
    (hs : ∀ x, A x → x.FromSeed S seed) (hm : ∀ x, A x → x.Recalls issued)
    (h : Scannable S seed id issued size required n blocks counter empty) :
    ∃ j : Nat, (∀ found, (scan S w keyset size required n counter empty found).Gives A
        (found.andHits S k (seedHits S seed id issued counter (j * size)))) ∧
      Ending S seed id issued size required counter empty j := by
  induction n generalizing counter empty blocks with
  | zero =>
    have hle : required ≤ empty := by
      have henough := h.enough
      have hnonneg := h.nonneg
      split at henough <;> omega
    refine ⟨0, fun found => ?_, ending_zero hle⟩
    rw [Nat.zero_mul]
    exact scan_stops hle ..
  | succ n ih =>
    by_cases hle : required ≤ empty
    · refine ⟨0, fun found => ?_, ending_zero hle⟩
      rw [Nat.zero_mul]
      exact scan_stops hle ..
    have hbatch : 1 * (size : Int) ≤ (required - empty) * size :=
      Int.mul_le_mul_of_nonneg_right (by omega) (by omega)
    have houtputs : ∀ c ∈ countersFrom counter size, ∃ o, Output.ofSeed S seed id 0 c = .ok o := by
      intro c hc
      rw [mem_countersFrom] at hc
      exact h.outputs c hc.1 (.inl (by omega))
    have hrun {j : Nat} (hrest : ∀ found, (scan S w keyset size required n (counter + size)
        (if seedHits S seed id issued counter size = [] then empty + 1 else 0) found).Gives A
          (found.andHits S k (seedHits S seed id issued (counter + size) (j * size)))) (found : Restored) :
        (scan S w keyset size required (n + 1) counter empty found).Gives A
          (found.andHits S k (seedHits S seed id issued counter ((j + 1) * size))) := by
      rw [Nat.succ_mul, Nat.add_comm, seedHits_add]
      exact scan_step hw hk hid hs hm (Int.not_le.mp hle) houtputs hrest found
    by_cases hnil : seedHits S seed id issued counter size = []
    · obtain ⟨j, hrest, hend⟩ := ih h.next_of_eq_nil
      exact ⟨j + 1, hrun (by rwa [if_pos hnil]), hend.next_of_eq_nil hnil⟩
    · obtain ⟨j, hrest, hend⟩ := ih (h.next_of_ne_nil hnil)
      exact ⟨j + 1, hrun (by rwa [if_neg hnil]), hend.next_of_zero h.nonneg⟩

end Scan

end Wallet

end Ecash
