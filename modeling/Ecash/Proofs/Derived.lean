import Ecash.Plan.Outputs
import Ecash.Proofs.Blinding
import Ecash.Proofs.Bytes
import Ecash.Proofs.Derivation
import Ecash.Proofs.Program.Ends

/-!
# Outputs of a seed

A seed gives every counter of a keyset one secret and one blinding factor, whatever
the amount (`Output.ofSeed_amount`), if the counter is small enough
(`Output.ofSeed_counter`). Derivations that are answered from the seed
make these outputs (`Plan.deriveAll_gives`).
-/
namespace Ecash

variable {S : Suite} {seed : Bytes} {id : String}

/-- The counters from `start` on, `n` of them. -/
def countersFrom (start : Int) (n : Nat) : List Int := (List.range n).map fun i : Nat => start + i

@[simp]
theorem mem_countersFrom {start c : Int} {n : Nat} :
    c ∈ countersFrom start n ↔ start ≤ c ∧ c < start + n := by
  unfold countersFrom
  rw [List.mem_map]
  constructor
  · rintro ⟨i, hi, rfl⟩
    have := List.mem_range.mp hi
    omega
  · intro h
    exact ⟨(c - start).toNat, List.mem_range.mpr (by omega), by omega⟩

theorem countersFrom_succ (start : Int) (n : Nat) :
    countersFrom start (n + 1) = start :: countersFrom (start + 1) n := by
  unfold countersFrom
  rw [List.range_succ_eq_map, List.map_cons, List.map_map, Int.natCast_zero, Int.add_zero]
  refine congrArg _ (List.map_congr_left fun i _ => ?_)
  simp only [Function.comp_apply, Nat.succ_eq_add_one, Int.natCast_add]
  omega

theorem countersFrom_add (start : Int) (m n : Nat) :
    countersFrom start (m + n) = countersFrom start m ++ countersFrom (start + m) n := by
  unfold countersFrom
  rw [List.range_add, List.map_append, List.map_map]
  refine congrArg _ (List.map_congr_left fun i _ => ?_)
  simp only [Function.comp_apply, Int.natCast_add]
  omega

/-- A derivation is answered with what the seed has for the counter. -/
def Exchange.FromSeed (S : Suite) (seed : Bytes) : Exchange → Prop
  | ⟨.derive (.str id) c _, r⟩ =>
    r = do return (← Derivation.secret S seed id c, ← Derivation.blindingFactor S seed id c)
  | _ => True

namespace Output

/-- The output for an amount that the seed has for a counter. -/
def ofSeed (S : Suite) (seed : Bytes) (id : String) (amount c : Int) : Outcome Output := do
  let secret ← Derivation.secret S seed id c
  let factor ← Derivation.blindingFactor S seed id c
  ofSecret S amount (.str id) (Bytes.ofText secret.hex) factor

/-- Outputs for amounts, with consecutive counters from `first` on. -/
def allOfSeed (S : Suite) (seed : Bytes) (id : String) (first : Int) (amounts : List Int) :
    Outcome (List Output) :=
  ((countersFrom first amounts.length).zip amounts).mapM fun (c, amount) => ofSeed S seed id amount c

theorem allOfSeed_cons (first amount : Int) (amounts : List Int) :
    allOfSeed S seed id first (amount :: amounts) = do
      let o ← ofSeed S seed id amount first
      return o :: (← allOfSeed S seed id (first + 1) amounts) := by
  unfold allOfSeed
  rw [List.length_cons, countersFrom_succ, List.zip_cons_cons, List.mapM_cons]

/-- Every output was made for its counter. -/
theorem ofSeed_of_all {first : Int} {amounts : List Int} {os : List Output}
    (h : allOfSeed S seed id first amounts = .ok os) {i : Nat} {o : Output} (ho : os[i]? = some o) :
    ∃ amount, ofSeed S seed id amount (first + i) = .ok o := by
  induction amounts generalizing first os i with
  | nil =>
    cases h
    simp at ho
  | cons amount amounts ih =>
    rw [allOfSeed_cons] at h
    obtain ⟨o', ho', h⟩ := Outcome.bind_ok_iff.mp h
    obtain ⟨os', hos, h⟩ := Outcome.bind_ok_iff.mp h
    cases h
    cases i with
    | zero =>
      cases ho
      exact ⟨amount, by simpa using ho'⟩
    | succ i =>
      obtain ⟨a, ha⟩ := ih hos (by simpa using ho)
      exact ⟨a, by rw [← ha]; congr 1; push_cast; omega⟩

theorem length_allOfSeed {first : Int} {amounts : List Int} {os : List Output}
    (h : allOfSeed S seed id first amounts = .ok os) : os.length = amounts.length := by
  have hl := (Outcome.mapM_ok_iff.mp h).length_eq
  simpa [countersFrom] using hl.symm

/-- A range in which every counter has an output. -/
theorem allOfSeed_total {start : Int} {n : Nat}
    (h : ∀ c ∈ countersFrom start n, ∃ o, ofSeed S seed id 0 c = .ok o) :
    ∃ os, allOfSeed S seed id start (List.replicate n 0) = .ok os := by
  refine Outcome.mapM_total fun (c, amount) hc => ?_
  rw [List.length_replicate] at hc
  obtain ⟨hc, hamount⟩ := List.of_mem_zip hc
  rw [List.eq_of_mem_replicate hamount]
  exact h c hc

/-- Two outputs of one counter differ in the amount of their messages only. -/
theorem ofSeed_amount {a b c : Int} {o : Output} (h : ofSeed S seed id a c = .ok o) :
    ofSeed S seed id b c = .ok { o with message := { o.message with amount := b } } := by
  obtain ⟨secret, hs, h⟩ := Outcome.bind_ok_iff.mp h
  obtain ⟨factor, hf, h⟩ := Outcome.bind_ok_iff.mp h
  obtain ⟨point, hp, h⟩ := Outcome.bind_ok_iff.mp h
  obtain ⟨hex, hx, h⟩ := Outcome.bind_ok_iff.mp h
  cases h
  unfold ofSeed ofSecret
  rw [hs, hf]
  change (S.blind _ _ >>= fun p => S.pointHex p >>= _) = _
  rw [hp]
  change (S.pointHex _ >>= _) = _
  rw [hx]
  rfl

/-- A seed has outputs for counters below 2^64 only. -/
theorem ofSeed_counter {amount c : Int} {o : Output} (h : ofSeed S seed id amount c = .ok o) :
    0 ≤ c ∧ c < 2 ^ 64 := by
  obtain ⟨secret, hs, -⟩ := Outcome.bind_ok_iff.mp h
  exact Derivation.derive_counter hs

end Output

namespace Plan

open Program

theorem derived_gives {A : Exchange → Prop} (hA : ∀ x, A x → x.FromSeed S seed) (use : IndexUse)
    (amount c : Int) :
    (derived S (.str id) use amount c).Gives A (Output.ofSeed S seed id amount c) := by
  intro r hr
  obtain rfl := hA _ hr
  unfold Output.ofSeed
  cases Derivation.secret S seed id c with
  | error e => rfl
  | ok secret =>
    cases Derivation.blindingFactor S seed id c with
    | error e => rfl
    | ok factor => rfl

/-- Answered from the seed, the derived outputs are those of the seed. -/
theorem deriveAll_gives {A : Exchange → Prop} (hA : ∀ x, A x → x.FromSeed S seed) (use : IndexUse)
    (first : Int) (amounts : List Int) :
    (deriveAll S (.str id) use first amounts).Gives A
      (Output.allOfSeed S seed id first amounts) := by
  induction amounts generalizing first with
  | nil => exact gives_pure _
  | cons amount rest ih =>
    rw [Output.allOfSeed_cons]
    exact (derived_gives hA use amount first).bind fun o _ =>
      (ih (first + 1)).bind fun os _ => gives_pure _

end Plan

/-! ## Residues -/

/-- The keyed hash of residues knows the counters below ten. -/
theorem Suite.hmac_residues (key start : Bytes) {n : Nat} (hn : n < 2 ^ 64) (b : UInt8) :
    Suite.residues.hmacSha256 key (start ++ Bytes.ofNat 8 n ++ [b]) =
      if n < 10 then Bytes.ofNat 2 (n * 256 + b.toNat) else [] := by
  have hdrop : (start ++ Bytes.ofNat 8 n ++ [b]).drop
      ((start ++ Bytes.ofNat 8 n ++ [b]).length - 9) = Bytes.ofNat 8 n ++ [b] := by
    rw [List.append_assoc]
    refine List.drop_left' ?_
    simp [Bytes.length_ofNat]
  have hvalue : Bytes.toNat (Bytes.ofNat 8 n ++ [b]) = n * 256 + b.toNat := by
    rw [Bytes.toNat_concat, Bytes.toNat_ofNat, Nat.mod_eq_of_lt (by omega)]
  change (if _ then _ else _) = _
  rw [hdrop, hvalue]
  have hb := b.toNat_lt
  by_cases h : n < 10
  · rw [if_pos h, if_pos (by omega)]
  · rw [if_neg h, if_neg (by omega)]

/-- Of residues, a seed has ten outputs. -/
theorem Output.ofSeed_residues {amount c : Int} :
    (∃ o, ofSeed .residues [] "01" amount c = .ok o) ↔ 0 ≤ c ∧ c < 10 := by
  constructor
  · rintro ⟨o, h⟩
    obtain ⟨h₀, hlt⟩ := ofSeed_counter h
    refine ⟨h₀, ?_⟩
    obtain ⟨secret, -, h⟩ := Outcome.bind_ok_iff.mp h
    obtain ⟨factor, h, -⟩ := Outcome.bind_ok_iff.mp h
    unfold Derivation.blindingFactor Derivation.derive at h
    rw [if_neg (by omega), if_neg (by decide), show "01".toList.take 2 = ['0', '1'] by decide] at h
    unfold Derivation.deriveHashed Derivation.hashedMessage at h
    rw [show Bytes.ofHex? "01" = some [1] by decide] at h
    dsimp only at h
    rw [if_neg (by omega)] at h
    dsimp only [bind, Except.bind] at h
    rw [Suite.hmac_residues _ _ (by omega)] at h
    by_contra hge
    rw [if_neg (show ¬c.toNat < 10 by omega)] at h
    cases h
  · rintro ⟨h₀, h⟩
    have hall : ∀ c ∈ countersFrom 0 10, (ofSeed .residues [] "01" 0 c).toOption.isSome := by
      decide +kernel
    have hc := hall c (mem_countersFrom.mpr ⟨h₀, by omega⟩)
    cases hd : ofSeed .residues [] "01" 0 c with
    | error e =>
      rw [hd] at hc
      cases hc
    | ok o => exact ⟨_, ofSeed_amount hd⟩

end Ecash
