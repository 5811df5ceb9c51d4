import Ecash.Proofs.Keyset
import Ecash.Proofs.Wallet.Interleaving
import Ecash.Proofs.Wallet.Scan
import Mathlib.Data.Finset.Basic
import Mathlib.Data.Rat.Floor

/-!
# A batch restore is complete up to the gap limit

The empty batches that end a scan are together at least as long as the gap limit
(`gap_le`). So a signed counter that it does not come to lies beyond a gap of that
length (`batchRestore_complete`).
-/
namespace Ecash

variable {S : Suite} {seed : Bytes} {id : String}

namespace Wallet

open Program

variable {A : Exchange → Prop} {w : Wallet} {k : Keyset} {keyset : Json}

/-! ## Cursors -/

/-- The source in memory goes from cursors to cursors, answer by answer. -/
inductive Moves : Cursors → List Exchange → Cursors → Prop where
  | nil (cs : Cursors) : Moves cs [] cs
  | cons {cs cs' cs'' : Cursors} {x : Exchange} {tr : List Exchange} (hx : Answers cs x cs')
    (h : Moves cs' tr cs'') : Moves cs (x :: tr) cs''

variable {cs cs' : Cursors} {tr : List Exchange}

theorem moves_append {t₁ t₂ : List Exchange} (h : Moves cs (t₁ ++ t₂) cs') :
    ∃ cs₁, Moves cs t₁ cs₁ ∧ Moves cs₁ t₂ cs' := by
  induction t₁ generalizing cs with
  | nil => exact ⟨cs, .nil cs, h⟩
  | cons x t₁ ih =>
    cases h with
    | cons hx h =>
      obtain ⟨cs₁, h₁, h₂⟩ := ih h
      exact ⟨cs₁, .cons hx h₁, h₂⟩

/-- Recovering alone moves no cursor. -/
theorem moves_restoring (hr : ∀ x ∈ tr, x.command.Restoring) (h : Moves cs tr cs') : cs' = cs := by
  induction h with
  | nil => rfl
  | @cons _ _ _ x _ hx h ih =>
    obtain ⟨hc, hr⟩ := List.forall_mem_cons.mp hr
    rw [ih hr]
    obtain ⟨c, a⟩ := x
    cases c with
    | reserve k n => cases hc
    | advance k least => cases hc
    | _ => exact hx

/-- The world with its counters in memory moves its cursors in this way. -/
theorem moves_history (S : Suite) {α : Type} (p : Program α) {w : World} (hw : w.source = .inMemory) :
    Moves w.cursors (p.history (World.handle S) w) (p.run (World.handle S) w).2.cursors := by
  induction p generalizing w with
  | done r => exact .nil _
  | ask c next ih =>
    obtain ⟨ha, hw'⟩ := answers_handle S c hw
    exact .cons ha (ih _ hw')

/-- A batch restore moves one cursor past the last counter that was recovered, unless
it is there, and no other. -/
theorem batchRestore_moves {gapLimit batchSize : Option Int} {counter : Int} {found : Restored}
    (hk : w.keyset keyset = .ok k)
    (h : (w.batchRestore S gapLimit batchSize counter keyset).Yields tr (.ok found))
    (hm : Moves cs tr cs') : cs' = match found.last with
      | none => cs
      | some last => cs.advance k.id (last + 1) := by
  obtain ⟨required, -, h⟩ := yields_lift_bind_ok.mp h
  obtain ⟨_, hk', h⟩ := yields_lift_bind_ok.mp h
  cases hk.symm.trans hk'
  obtain ⟨scanned, t₁, t₂, rfl, hscan, h⟩ := yields_bind_ok.mp h
  obtain ⟨cs₁, hm₁, hm₂⟩ := moves_append hm
  rw [moves_restoring ((only_scan ..).history hscan) hm₁] at hm₂
  split at h
  · rename_i hlast
    obtain ⟨rfl, rfl⟩ := yields_pure_ok.mp h
    rw [hlast]
    cases hm₂
    rfl
  · rename_i last hlast
    obtain ⟨_, t₂, t₃, rfl, hskip, h⟩ := yields_bind_ok.mp h
    obtain ⟨rfl, rfl⟩ := yields_pure_ok.mp h
    rw [hlast, List.append_nil] at *
    obtain ⟨r, t₄, t₅, rfl, hadvance, hrest⟩ := yields_bind_ok.mp hskip
    obtain ⟨_, ⟨⟩, hadvance⟩ := yields_attempt.mp hadvance
    obtain ⟨a, _, rfl, hdone⟩ := yields_ask.mp hadvance
    obtain ⟨rfl, rfl⟩ := yields_done.mp hdone
    cases hm₂ with
    | cons hx hm₂ =>
      obtain ⟨⟨⟩, rfl⟩ := Prod.mk.inj hx
      obtain ⟨rfl, -⟩ := yields_pure_ok.mp hrest
      cases hm₂
      rfl

variable {issued : Json → Option BlindedSignature}

theorem skipRestored_achieves (ha : ∀ x, A x → x.Advances) (keyset : Json) (last : Int) :
    (skipRestored keyset last).Achieves A fun _ => True := by
  refine Ends.bind (Ends.attempt fun r hr => ?_)
  obtain rfl | ⟨e, rfl, he⟩ := ha _ hr
  · exact ⟨(), rfl, trivial⟩
  · change (if e.ofKind [.capability] = true then _ else _ : Program Unit).Achieves A _
    rw [if_pos he]
    exact achieves_asked

/-! ## Completeness -/

/-- Wherever a signed counter follows, `gap` counters in a row are not all unsigned. -/
def Gapless (signed : Finset Int) (start gap : Int) : Prop :=
  ∀ a, start ≤ a → (∃ m ∈ signed, a + gap ≤ m) → ∃ c ∈ signed, a ≤ c ∧ c < a + gap

theorem ofHits_total {hits : List Hit}
    (h : ∀ h ∈ hits, ∃ q, h.output.toProof S h.signature k = .ok q) :
    ∃ r, Restored.ofHits S k hits = .ok r := by
  obtain ⟨proofs, hp⟩ := Outcome.mapM_total h
  exact ⟨_, by unfold Restored.ofHits; rw [hp]; rfl⟩

/-- Batches that together are no shorter than the gap limit. -/
theorem gap_le {gap size : Int} (hsize : 0 < size) : gap ≤ ⌈(gap : ℚ) / size⌉ * size := by
  have hpos : (0 : ℚ) < size := by exact_mod_cast hsize
  have h := Int.le_ceil ((gap : ℚ) / size)
  rw [div_le_iff₀ hpos] at h
  exact_mod_cast h

/-- The counters that a scan may ask for: so many batches from its start, or from the
end of a batch with a signed counter. -/
def Reached (signed : Finset Int) (start required size c : Int) : Prop :=
  start ≤ c ∧ (c < start + required * size ∨ ∃ m ∈ signed, start ≤ m ∧ c < m + (required + 1) * size)

/-- No signed counter is left out after a gap. -/
theorem mem_of_gapless {signed : Finset Int} {start gap required c : Int} {size j : Nat}
    (hsize : 0 < size) (hgap : gap ≤ required * size)
    (hsigned : ∀ c, c ∈ signed ↔ (seedHit? S seed id issued c).isSome)
    (hend : Ending S seed id issued size required start 0 j) (hg : Gapless signed start gap)
    (hc : c ∈ signed) : c < start + j * size := by
  by_contra hlt
  have henough := hend.enough
  have hnonneg : 0 ≤ (j - required) * (size : Int) := Int.mul_nonneg (by omega) (by omega)
  have hsum : start + (j - required) * size + required * size = start + j * size := by ring
  obtain ⟨c', hc', h₁, h₂⟩ := hg (start + (j - required) * size) (by omega) ⟨c, hc, by omega⟩
  have hsome := (hsigned c').mp hc'
  rw [hend.unsigned c' (by omega) h₁ (by omega)] at hsome
  cases hsome

/-- Counters end at 2^64, so no hit follows the batches up to there. -/
theorem seedHit?_of_past {size : Nat} (hsize : 0 < size) {start c : Int}
    (hc : start + ((2 ^ 64 - start).toNat / size + 1 : Nat) * size ≤ c) :
    seedHit? S seed id issued c = none := by
  by_contra hne
  have hlt := lt_of_seedHit? (Option.isSome_iff_ne_none.mpr hne)
  have hdiv := Nat.lt_div_mul_add (a := (2 ^ 64 - start).toNat) hsize
  rw [← Nat.succ_mul] at hdiv
  have hdiv' : ((2 ^ 64 - start).toNat : Int) < ((2 ^ 64 - start).toNat / size + 1 : Nat) * size := by
    exact_mod_cast hdiv
  omega

/-- A batch restore starts where a scan may go on to its end. -/
theorem scannable_start {size : Nat} {required start : Int} (hsize : 0 < size)
    (hrequired : 0 < required) {signed : Finset Int}
    (hsigned : ∀ c, c ∈ signed ↔ (seedHit? S seed id issued c).isSome)
    (hd : ∀ c, Reached signed start required size c → ∃ o, Output.ofSeed S seed id 0 c = .ok o) :
    Scannable S seed id issued size required (batchBound start size required)
      ((2 ^ 64 - start).toNat / size + 1) start 0 where
  outputs := by
    rintro c h₁ (h₂ | ⟨m, h₂, h₃, h₄⟩)
    · exact hd c ⟨h₁, .inl (by rwa [Int.sub_zero] at h₂)⟩
    · exact hd c ⟨h₁, .inr ⟨m, (hsigned m).mpr h₃, h₂, h₄⟩⟩
  unsigned := fun _ => seedHit?_of_past hsize
  nonneg := Int.le_refl 0
  enough := by
    rw [if_neg (Nat.succ_ne_zero _)]
    unfold batchBound
    rw [Int.toNat_natCast]
    omega

/-- A batch restore returns what its scan has found. -/
theorem batchRestore_achieves {w : Wallet} {keyset : Json} (hk : w.keyset keyset = .ok k)
    (ha : ∀ x, A x → x.Advances) {gapLimit batchSize : Option Int} {gap size required start : Int}
    (hgap : orSetting gapLimit w.settings.restore.gapLimit = gap)
    (hbatch : orSetting batchSize w.settings.restore.batchSize = size)
    (hquotient : emptyBatches gap size = .ok required) {found : Restored}
    (hscan : (scan S w k.id size required (batchBound start size required) start 0
      Restored.none).Achieves A (· = found)) :
    (w.batchRestore S gapLimit batchSize start keyset).Achieves A (· = found) := by
  unfold batchRestore
  rw [hgap, hbatch]
  refine (achieves_lift hquotient rfl).bind ?_
  rintro _ rfl
  refine (achieves_lift hk rfl).bind ?_
  rintro _ rfl
  refine hscan.bind ?_
  rintro _ rfl
  split
  · exact achieves_pure rfl
  · exact (skipRestored_achieves ha _ _).bind fun _ _ => achieves_pure rfl

/-- A batch restore ends with the hits of the batches that it goes through. The last of
these, together as long as the gap limit, are without hits. -/
theorem batchRestore_gives {w : Wallet} {keyset : Json} (hchain : w.chain.Keyed)
    (hw : w.seeded = true) (hk : w.keyset keyset = .ok k) (hid : k.id = .str id)
    (hs : ∀ x, A x → x.FromSeed S seed) (hm : ∀ x, A x → x.Recalls issued)
    (ha : ∀ x, A x → x.Advances) {gapLimit batchSize : Option Int} {size : Nat} {required start : Int}
    {gap : Int} (hgap : orSetting gapLimit w.settings.restore.gapLimit = gap)
    (hbatch : orSetting batchSize w.settings.restore.batchSize = size)
    (hquotient : emptyBatches gap size = .ok required) (hsize : 0 < size)
    (hrequired : 0 < required) {signed : Finset Int}
    (hsigned : ∀ c, c ∈ signed ↔ (seedHit? S seed id issued c).isSome)
    (hproofs : ∀ c h, seedHit? S seed id issued c = some h →
      ∃ q, h.output.toProof S h.signature k = .ok q)
    (hd : ∀ c, Reached signed start required size c → ∃ o, Output.ofSeed S seed id 0 c = .ok o) :
    ∃ (j : Nat) (found : Restored),
      Restored.ofHits S k (seedHits S seed id issued start (j * size)) = .ok found ∧
      (w.batchRestore S gapLimit batchSize start keyset).Achieves A (· = found) ∧
      Ending S seed id issued size required start 0 j := by
  obtain ⟨j, hrun, hend⟩ :=
    scan_gives hw (keyset_id hchain hk) hid hs hm (scannable_start hsize hrequired hsigned hd)
  obtain ⟨found, hfound⟩ :
      ∃ r, Restored.ofHits S k (seedHits S seed id issued start (j * size)) = .ok r := by
    refine ofHits_total fun h hh => ?_
    obtain ⟨c, -, hc⟩ := List.mem_filterMap.mp hh
    exact hproofs c h hc
  refine ⟨j, found, hfound, batchRestore_achieves hk ha hgap hbatch hquotient ?_, hend⟩
  refine Ends.mono (hrun _) ?_
  rintro _ rfl
  exact ⟨found, by rw [none_andHits, hfound], rfl⟩

/-- A batch restore ends, with proofs for signed counters in ascending order. When no gap
among the signed counters is as long as the gap limit, it leaves none of them out. The
last counter is the highest, and the cursor of the keyset is past it afterwards. -/
theorem batchRestore_complete {σ : Type} (handle : (c : Command) → σ → c.Answer × σ) (s : σ)
    (S : Suite) (w : Wallet) (seed : Bytes) (keyset : Json) (k : Keyset) (id : String)
    (issued : Json → Option BlindedSignature) (signed : Finset Int) (gapLimit batchSize : Option Int)
    (start gap size : Int) (hchain : w.chain.Keyed) (hw : w.seeded = true)
    (hk : w.keyset keyset = .ok k) (hid : k.id = .str id)
    (hgap : orSetting gapLimit w.settings.restore.gapLimit = gap)
    (hbatch : orSetting batchSize w.settings.restore.batchSize = size) (hpos : 1 ≤ gap)
    (hsize : 1 ≤ size) (hquotient : emptyBatches gap size = .ok ⌈(gap : ℚ) / size⌉)
    (hsigned : ∀ c, c ∈ signed ↔ (seedHit? S seed id issued c).isSome)
    (hproofs : ∀ c h, seedHit? S seed id issued c = some h →
      ∃ q, h.output.toProof S h.signature k = .ok q)
    (hd : ∀ c, Reached signed start ⌈(gap : ℚ) / size⌉ size c →
      ∃ o, Output.ofSeed S seed id 0 c = .ok o)
    (hA : ∀ x ∈ (w.batchRestore S gapLimit batchSize start keyset).history handle s,
      x.FromSeed S seed ∧ x.Recalls issued ∧ x.Advances) :
    ∃ (hits : List Hit) (found : Restored),
      ((w.batchRestore S gapLimit batchSize start keyset).run handle s).1 = .ok found ∧
      List.Forall₂ (fun h q => h.output.toProof S h.signature k = .ok q) hits found.proofs ∧
      hits.Pairwise (·.counter < ·.counter) ∧
      (∀ h ∈ hits, start ≤ h.counter ∧ h.counter ∈ signed ∧
        seedHit? S seed id issued h.counter = some h) ∧
      (Gapless signed start gap → ∀ c ∈ signed, start ≤ c → ∃ h ∈ hits, h.counter = c) ∧
      found.last = (hits.map Hit.counter).max? ∧
      ∀ cs cs', Moves cs ((w.batchRestore S gapLimit batchSize start keyset).history handle s) cs' →
        ∀ j, cs'.next j = match found.last with
          | some last => if k.id.same j then max (cs.next j) (last + 1) else cs.next j
          | none => cs.next j := by
  obtain ⟨size, rfl⟩ := Int.eq_ofNat_of_zero_le (by omega : 0 ≤ size)
  have hrequired : 0 < ⌈(gap : ℚ) / (size : Int)⌉ := by
    refine Int.ceil_pos.mpr (div_pos ?_ ?_) <;> exact_mod_cast (by omega)
  have hcover : gap ≤ ⌈(gap : ℚ) / (size : Int)⌉ * size := gap_le (by omega)
  obtain ⟨j, found, hfound, hends, hend⟩ := batchRestore_gives
    (A := fun x => x.FromSeed S seed ∧ x.Recalls issued ∧ x.Advances) hchain hw hk hid
    (fun _ h => h.1) (fun _ h => h.2.1) (fun _ h => h.2.2) hgap hbatch hquotient (by omega)
    hrequired hsigned hproofs hd
  obtain ⟨_, hrun, rfl⟩ := hends.run hA
  obtain ⟨proofs, hforall, ⟨⟩⟩ := Outcome.bind_ok_iff.mp hfound
  have hsorted : (seedHits S seed id issued start (j * size)).Pairwise (·.counter < ·.counter) :=
    pairwise_hits (fun _ _ => counter_of_seedHit?) start (j * size)
  refine ⟨_, _, hrun, Outcome.mapM_ok_iff.mp hforall, hsorted, fun h hh => ?_, fun hg c hc hle => ?_,
    ?_, fun cs cs' hmoves k' => ?_⟩
  · obtain ⟨c, hc, hit⟩ := List.mem_filterMap.mp hh
    obtain rfl := counter_of_seedHit? hit
    exact ⟨(mem_countersFrom.mp hc).1, (hsigned _).mpr (by rw [hit]; rfl), hit⟩
  · have hlt := mem_of_gapless (by omega) hcover hsigned hend hg hc
    obtain ⟨h, hh⟩ := Option.isSome_iff_exists.mp ((hsigned c).mp hc)
    refine ⟨h, List.mem_filterMap.mpr ⟨c, mem_countersFrom.mpr ⟨hle, by push_cast; exact hlt⟩, hh⟩, ?_⟩
    exact counter_of_seedHit? hh
  · exact getLast?_eq_max? (List.pairwise_map.mpr hsorted)
  · rw [batchRestore_moves hk (hrun ▸ yields_run ..) hmoves]
    split
    · rename_i h
      rw [h]
    · rename_i last h
      rw [h]
      exact Cursors.next_advance ..

/-- The hits of residues are at 0 and 2, and have proofs. -/
theorem seedHit?_residues (c : Int) :
    (c ∈ ({0, 2} : Finset Int) ↔
      (seedHit? .residues [] "01" (fun b => residueMint.issued.lookup b) c).isSome) ∧
    ∀ h, seedHit? .residues [] "01" (fun b => residueMint.issued.lookup b) c = some h →
      ∃ q, h.output.toProof .residues h.signature threeAndFive = .ok q := by
  by_cases hc : c ∈ countersFrom 0 10
  · have hall : ∀ c ∈ countersFrom 0 10, (c ∈ ({0, 2} : Finset Int) ↔
        (seedHit? .residues [] "01" (fun b => residueMint.issued.lookup b) c).isSome) ∧
      ∀ h ∈ seedHit? .residues [] "01" (fun b => residueMint.issued.lookup b) c,
        (h.output.toProof .residues h.signature threeAndFive).isOk := by
      decide +kernel
    refine (hall c hc).imp_right fun h hit hh => ?_
    have hok := h hit hh
    cases hq : hit.output.toProof .residues hit.signature threeAndFive with
    | error e => rw [hq] at hok; cases hok
    | ok q => exact ⟨q, rfl⟩
  · have hnone : seedHit? .residues [] "01" (fun b => residueMint.issued.lookup b) c = none := by
      cases ho : Output.ofSeed .residues [] "01" 0 c with
      | error e => rw [seedHit?, ho]; rfl
      | ok o =>
        have := Output.ofSeed_residues.mp ⟨o, ho⟩
        exact absurd (mem_countersFrom.mpr (by omega)) hc
    rw [hnone]
    refine ⟨⟨fun h => ?_, fun h => by cases h⟩, fun h hh => by cases hh⟩
    simp at h hc
    omega

/-- Batches of two, and a gap limit of three. The cursor is then past the last hit. -/
theorem batchRestore_complete_residues :
    ∃ (hits : List Hit) (found : Restored),
      ((residueWallet.batchRestore .residues (some 3) (some 2) 0 .null).run (World.handle .residues)
        residueWorld).1 = .ok found ∧
      List.Forall₂ (fun h q => h.output.toProof .residues h.signature threeAndFive = .ok q) hits
        found.proofs ∧
      (∀ c ∈ ({0, 2} : Finset Int), ∃ h ∈ hits, h.counter = c) ∧ found.last = some 2 ∧
      ((residueWallet.batchRestore .residues (some 3) (some 2) 0 .null).run (World.handle .residues)
        residueWorld).2.cursors.next (.str "01") = 3 := by
  have hchain : residueWallet.chain.Keyed := ⟨List.pairwise_singleton _ _, by decide⟩
  have hceil : ⌈((3 : Int) : ℚ) / (2 : Int)⌉ = 2 := by
    rw [Int.ceil_eq_iff]
    norm_num
  have hgapless : Gapless {0, 2} 0 3 := by
    intro a ha ⟨m, hm, hle⟩
    simp at hm
    omega
  have hreach : ∀ c, Reached {0, 2} 0 2 2 c → ∃ o, Output.ofSeed .residues [] "01" 0 c = .ok o := by
    rintro c ⟨h₀, h⟩
    refine Output.ofSeed_residues.mpr ⟨h₀, ?_⟩
    rcases h with h | ⟨m, hm, -, h⟩
    · omega
    · simp at hm
      omega
  have hrecalls := history_recalling (S := .residues) residueMint_forthcoming
    (only_batchRestore .residues residueWallet (some 3) (some 2) 0 .null) (w := residueWorld) rfl rfl
  obtain ⟨hits, found, hrun, hproofs, -, -, hcomplete, -, hcursors⟩ := batchRestore_complete
    (World.handle .residues) residueWorld .residues residueWallet [] .null threeAndFive "01"
    (fun b => residueMint.issued.lookup b) {0, 2} (some 3) (some 2) 0 3 2 hchain rfl
    (by decide +kernel) rfl rfl rfl (by decide) (by decide) (by rw [hceil]; decide +kernel)
    (fun c => (seedHit?_residues c).1) (fun c => (seedHit?_residues c).2)
    (by rw [hceil]; exact hreach) fun x hx => ⟨history_fromSeed _ rfl x hx, hrecalls x hx⟩
  have hfound : found.last = some 2 := by
    have hlast : (((residueWallet.batchRestore .residues (some 3) (some 2) 0 .null).run
        (World.handle .residues) residueWorld).1.toOption.bind Restored.last) = some 2 := by
      decide +kernel
    rw [hrun] at hlast
    exact hlast
  have hcursor := hcursors _ _ (moves_history .residues _ (w := residueWorld) rfl) (.str "01")
  rw [hfound] at hcursor
  dsimp only at hcursor
  rw [if_pos (by decide), show residueWorld.cursors.next (.str "01") = 0 by decide] at hcursor
  refine ⟨hits, found, hrun, hproofs, fun c hc => hcomplete hgapless c hc ?_, hfound, hcursor⟩
  simp at hc
  omega

/-- Where nothing is signed there is nothing to be found, but from 2^64 on, and for keysets
of other versions, the search fails. -/
theorem batchRestore_underivable :
    let world := World.fresh (some []) (.fresh [])
    (World.run .secp256k1
      (residueWallet.batchRestore .secp256k1 (some 1) (some 1) (2 ^ 64) .null) world).1 =
        .error .tooLarge ∧
    (World.run .secp256k1
      (unknownVersionWallet.batchRestore .secp256k1 (some 1) (some 1) 0 .null) world).1 =
        .error (.derivation (.unknownVersion "02")) := by decide +kernel

end Wallet

end Ecash
