import Ecash.Proofs.Wallet.Recall

/-!
# A restore finds the original proofs

A restore makes the outputs of a range of counters again, blanks this time, and turns
the mint's old signatures into proofs. What it finds are the hits among the blanks
(`restore_gives`). Where the originals were made from the same seed, these are the
hits among the originals, and the proofs are theirs (`restore_reproduces`).
-/
namespace Ecash

variable {S : Suite} {seed : Bytes} {id : String}

namespace Wallet

open Program

/-! ## Hits -/

/-- An output that the mint has signed, with the counter it is made for. -/
structure Hit where
  counter : Int
  output : Output
  signature : BlindedSignature
  deriving DecidableEq, Repr

/-- The hit of an output, if it has a signature. -/
def hit? (issued : Json → Option BlindedSignature) (c : Int) (o : Output) : Option Hit :=
  (issued o.message.b).map (⟨c, o, ·⟩)

/-- The hits among outputs for consecutive counters. -/
def hitsIn (issued : Json → Option BlindedSignature) : (start : Int) → List Output → List Hit
  | _, [] => []
  | c, o :: os => (hit? issued c o).toList ++ hitsIn issued (c + 1) os

/-- The proofs of the hits, one after the other, and the counter of the last. -/
def Restored.ofHits (S : Suite) (k : Keyset) (hits : List Hit) : Outcome Restored := do
  let proofs ← hits.mapM fun h => h.output.toProof S h.signature k
  return ⟨proofs, (hits.map Hit.counter).getLast?⟩

theorem ofHits_cons (k : Keyset) (h : Hit) (hits : List Hit) :
    Restored.ofHits S k (h :: hits) = do
      let q ← h.output.toProof S h.signature k
      let r ← Restored.ofHits S k hits
      return ⟨q :: r.proofs, some (r.last.getD h.counter)⟩ := by
  unfold Restored.ofHits
  rw [List.mapM_cons, List.map_cons, List.getLast?_cons]
  simp only [bind_assoc, pure_bind]

/-- What was found before, and what is found then. -/
def Restored.andThen (found r : Restored) : Restored :=
  ⟨found.proofs ++ r.proofs, r.last.or found.last⟩

/-- What was found before, and the proofs of the hits. -/
def Restored.andHits (S : Suite) (k : Keyset) (found : Restored) (hits : List Hit) :
    Outcome Restored := do
  let r ← Restored.ofHits S k hits
  return found.andThen r

@[simp]
theorem none_andHits (k : Keyset) (hits : List Hit) :
    Restored.none.andHits S k hits = Restored.ofHits S k hits := by
  unfold Restored.andHits Restored.andThen Restored.none
  simp only [List.nil_append, Option.or_none]
  exact bind_pure _

/-- Recovering goes on from what was found before. -/
theorem recover_eq (k : Keyset) (signed : List (Json × BlindedSignature)) (start : Int)
    (os : List Output) (found : Restored) : recover S k signed start os found =
      found.andHits S k (hitsIn (fun b => List.lookup b signed) start os) := by
  induction os generalizing start found with
  | nil =>
    simp [recover, hitsIn, Restored.andHits, Restored.ofHits, Restored.andThen, pure, Except.pure, bind,
      Except.bind]
  | cons o os ih =>
    rw [recover, hitsIn, hit?]
    cases hs : signed.lookup o.message.b with
    | none => exact ih _ _
    | some s =>
      simp only [ih, Option.map_some, Option.toList_some, List.singleton_append, Restored.andHits,
        ofHits_cons, bind_assoc, pure_bind]
      refine bind_congr fun q => bind_congr fun r => ?_
      unfold Restored.andThen
      rw [List.append_assoc]
      cases r.last <;> rfl

theorem hitsIn_congr {f g : Json → Option BlindedSignature} {start : Int} {os : List Output}
    (h : ∀ o ∈ os, f o.message.b = g o.message.b) : hitsIn f start os = hitsIn g start os := by
  induction os generalizing start with
  | nil => rfl
  | cons o os ih =>
    obtain ⟨ho, h⟩ := List.forall_mem_cons.mp h
    rw [hitsIn, hitsIn, hit?, hit?, ho, ih h]

/-! ## Restoring -/

/-- Answered from the seed and the mint's memory, a restore recovers the hits among
the blanks of its range. -/
theorem restore_gives {A : Exchange → Prop} {w : Wallet} {k : Keyset} {keyset : Json}
    {issued : Json → Option BlindedSignature} (hw : w.seeded = true) (hk : w.keyset keyset = .ok k)
    (hid : k.id = .str id) (hs : ∀ x, A x → x.FromSeed S seed) (hm : ∀ x, A x → x.Recalls issued)
    (start count : Int) : (w.restore S start count keyset).Gives A (do
      let os ← Output.allOfSeed S seed id start (List.replicate count.toNat 0)
      Restored.ofHits S k (hitsIn issued start os)) := by
  unfold restore
  rw [hw]
  refine (achieves_lift hk rfl).ends_bind ?_
  rintro _ rfl
  rw [hid]
  refine (Plan.deriveAll_gives hs .recovery start _).bind fun os _ => ?_
  refine Ends.bind (ends_counted fun r hr => ?_)
  obtain ⟨answer, rfl, hrecall⟩ := hm _ hr
  obtain ⟨signed, hsigned, hlookup⟩ := hrecall.lookup
  dsimp only
  rw [if_neg (not_not.mpr hrecall.aligned)]
  refine (achieves_lift hsigned rfl).ends_bind ?_
  rintro _ rfl
  have hhits : hitsIn (fun b => List.lookup b signed) start os = hitsIn issued start os :=
    hitsIn_congr fun o ho => hlookup _ (List.mem_map_of_mem ho)
  rw [recover_eq, hhits, none_andHits]
  rfl

/-! ## The originals -/

/-- Different counters have outputs with different points. -/
def PointsDiffer (S : Suite) (seed : Bytes) (id : String) (cs : List Int) : Prop :=
  ∀ c ∈ cs, ∀ c' ∈ cs, ∀ o o', Output.ofSeed S seed id 0 c = .ok o →
    Output.ofSeed S seed id 0 c' = .ok o' → o.message.b = o'.message.b → c = c'

/-- The output for a counter among outputs for consecutive ones. -/
def outputAt (first : Int) (os : List Output) (c : Int) : Option Output :=
  if first ≤ c then os[(c - first).toNat]? else none

/-- The hits among the outputs, in a range of counters. -/
def hitsBetween (issued : Json → Option BlindedSignature) (first : Int) (os : List Output)
    (start count : Int) : List Hit :=
  (countersFrom start count.toNat).filterMap fun c => (outputAt first os c).bind (hit? issued c)

/-- The hits among outputs of the seed, found counter by counter. -/
theorem hitsIn_of_seed {issued : Json → Option BlindedSignature} {f : Int → Option Hit} {start : Int}
    {n : Nat} {os : List Output}
    (h : Output.allOfSeed S seed id start (List.replicate n 0) = .ok os)
    (hf : ∀ c ∈ countersFrom start n, ∀ o, Output.ofSeed S seed id 0 c = .ok o → hit? issued c o = f c) :
    hitsIn issued start os = (countersFrom start n).filterMap f := by
  induction n generalizing start os with
  | zero =>
    cases h
    rfl
  | succ n ih =>
    rw [List.replicate_succ, Output.allOfSeed_cons] at h
    obtain ⟨o, ho, h⟩ := Outcome.bind_ok_iff.mp h
    obtain ⟨os, hos, h⟩ := Outcome.bind_ok_iff.mp h
    cases h
    rw [countersFrom_succ] at hf ⊢
    rw [List.forall_mem_cons] at hf
    rw [hitsIn, hf.1 o ho, ih hos hf.2, List.filterMap_cons]
    cases f start <;> rfl

/-- The hit with a blank in place of its output. -/
def Hit.blank (h : Hit) : Hit :=
  { h with output := { h.output with message := { h.output.message with amount := 0 } } }

/-- The amount of an output's message does not matter for its proof. -/
theorem ofHits_blank (k : Keyset) (hits : List Hit) :
    Restored.ofHits S k (hits.map Hit.blank) = Restored.ofHits S k hits := by
  unfold Restored.ofHits
  rw [List.map_map, List.mapM_map]
  rfl

theorem outputAt_eq_some {first c : Int} {os : List Output} {o : Output} :
    outputAt first os c = some o ↔ ∃ i : Nat, c = first + i ∧ os[i]? = some o := by
  unfold outputAt
  constructor
  · intro h
    split at h
    · exact ⟨(c - first).toNat, by omega, h⟩
    · cases h
  · rintro ⟨i, rfl, h⟩
    rw [if_pos (by omega), show (first + i - first).toNat = i by omega, h]

variable {issued : Json → Option BlindedSignature} {first start count : Int} {amounts : List Int}
  {originals : List Output}

/-- The blank for a counter hits where the original output does. -/
theorem hit?_of_original (hmade : Output.allOfSeed S seed id first amounts = .ok originals)
    (hissued : ∀ b s, issued b = some s → ∃ o ∈ originals, o.message.b = b)
    (hdiff : PointsDiffer S seed id (countersFrom start count.toNat ++ countersFrom first amounts.length))
    {c : Int} (hc : c ∈ countersFrom start count.toNat) {o : Output}
    (ho : Output.ofSeed S seed id 0 c = .ok o) :
    hit? issued c o = ((outputAt first originals c).bind (hit? issued c)).map Hit.blank := by
  cases hat : outputAt first originals c with
  | some original =>
    obtain ⟨i, rfl, hi⟩ := outputAt_eq_some.mp hat
    obtain ⟨a, ha⟩ := Output.ofSeed_of_all hmade hi
    rw [Output.ofSeed_amount ha] at ho
    cases ho
    simp only [hit?, Option.bind_some, Option.map_map]
    rfl
  | none =>
    cases hs : issued o.message.b with
    | none => simp [hit?, hs]
    | some s =>
      -- the original with this point is of the same counter
      obtain ⟨original, hmem, hb⟩ := hissued _ _ hs
      obtain ⟨i, hi⟩ := List.getElem?_of_mem hmem
      obtain ⟨a, ha⟩ := Output.ofSeed_of_all hmade hi
      have hlt := (List.getElem?_eq_some_iff.mp hi).1
      rw [Output.length_allOfSeed hmade] at hlt
      have hc' : first + i ∈ countersFrom first amounts.length := by
        rw [mem_countersFrom]
        omega
      have heq := hdiff c (List.mem_append_left _ hc) _ (List.mem_append_right _ hc') o _ ho
        (Output.ofSeed_amount ha) hb.symm
      rw [outputAt_eq_some.mpr ⟨i, heq, hi⟩] at hat
      cases hat

theorem getLast?_eq_max? {cs : List Int} (h : cs.Pairwise (· < ·)) : cs.getLast? = cs.max? := by
  rcases cs.eq_nil_or_concat with rfl | ⟨init, last, rfl⟩
  · rfl
  · rw [List.concat_eq_append] at h ⊢
    rw [List.getLast?_concat, eq_comm, List.max?_eq_some_iff]
    refine ⟨by simp, fun c hc => ?_⟩
    rcases List.mem_append.mp hc with hc | hc
    · exact Int.le_of_lt ((List.pairwise_append.mp h).2.2 c hc last List.mem_cons_self)
    · exact Int.le_of_eq (List.mem_singleton.mp hc)

/-- Hits come by ascending counters. -/
theorem pairwise_hits {f : Int → Option Hit} (hf : ∀ c h, f c = some h → h.counter = c) (start : Int)
    (n : Nat) : ((countersFrom start n).filterMap f).Pairwise (·.counter < ·.counter) := by
  rw [List.pairwise_filterMap, countersFrom, List.pairwise_map]
  refine List.pairwise_lt_range.imp fun {i j} hij h hi h' hj => ?_
  rw [hf _ _ hi, hf _ _ hj]
  omega

theorem counter_of_hit? {c : Int} {o : Output} {h : Hit} (hh : hit? issued c o = some h) :
    h.counter = c := by
  obtain ⟨s, -, rfl⟩ := Option.map_eq_some_iff.mp hh
  rfl

theorem restore_misaligned {A : Exchange → Prop} {w : Wallet} {k : Keyset} {keyset : Json}
    (hw : w.seeded = true) (hk : w.keyset keyset = .ok k) (hid : k.id = .str id)
    (hs : ∀ x, A x → x.FromSeed S seed) (hm : ∀ x, A x → x.Misaligned) {blanks : List Output}
    (hb : Output.allOfSeed S seed id start (List.replicate count.toNat 0) = .ok blanks) :
    (w.restore S start count keyset).Ends A fun r => ∃ e : WalletError, e.kind = .mint ∧ r = refuse e := by
  unfold restore
  rw [hw]
  refine (achieves_lift hk rfl).ends_bind ?_
  rintro _ rfl
  rw [hid]
  refine Ends.bind ((Plan.deriveAll_gives hs .recovery start _).mono ?_)
  rintro _ rfl
  rw [hb]
  refine Ends.bind (ends_counted fun r hr => ?_)
  obtain ⟨answer, rfl, hne⟩ := hm _ hr
  dsimp only
  rw [if_pos hne]
  exact ⟨_, rfl, rfl⟩

theorem ofHits_eq {k : Keyset} {hits : List Hit} (h : hits.Pairwise (·.counter < ·.counter)) :
    Restored.ofHits S k hits = do
      let proofs ← hits.mapM fun h => h.output.toProof S h.signature k
      return ⟨proofs, (hits.map Hit.counter).max?⟩ := by
  unfold Restored.ofHits
  rw [getLast?_eq_max? (List.pairwise_map.mpr h)]

/-- A restore of any range gives what the original outputs in the range give with
their signatures, by ascending counters. -/
theorem restore_reproduces {σ σ' : Type} (handle : (c : Command) → σ → c.Answer × σ) (s : σ)
    (handle' : (c : Command) → σ' → c.Answer × σ') (s' : σ') (S : Suite) (w : Wallet) (seed : Bytes)
    (keyset : Json) (k : Keyset) (id : String) (use : IndexUse) (amounts : List Int) (first : Int)
    (originals : List Output) (issued : Json → Option BlindedSignature) (start count : Int)
    (hw : w.seeded = true) (hk : w.keyset keyset = .ok k) (hid : k.id = .str id)
    (hmade : ((Plan.deriveAll S k.id use first amounts).run handle s).1 = .ok originals)
    (hseed : ∀ x ∈ (Plan.deriveAll S k.id use first amounts).history handle s, x.FromSeed S seed)
    (hissued : ∀ b s, issued b = some s → ∃ o ∈ originals, o.message.b = b)
    (hd : ∀ c ∈ countersFrom start count.toNat, ∃ o, Output.ofSeed S seed id 0 c = .ok o)
    (hdiff : PointsDiffer S seed id (countersFrom start count.toNat ++ countersFrom first amounts.length))
    (hseed' : ∀ x ∈ (w.restore S start count keyset).history handle' s', x.FromSeed S seed) :
    (hitsBetween issued first originals start count).Pairwise (·.counter < ·.counter) ∧
    ((∀ x ∈ (w.restore S start count keyset).history handle' s', x.Recalls issued) →
      ((w.restore S start count keyset).run handle' s').1 = do
        let hits := hitsBetween issued first originals start count
        let proofs ← hits.mapM fun h => h.output.toProof S h.signature k
        return ⟨proofs, (hits.map Hit.counter).max?⟩) ∧
    ((∀ x ∈ (w.restore S start count keyset).history handle' s', x.Misaligned) →
      ∃ e : WalletError, e.kind = .mint ∧
        ((w.restore S start count keyset).run handle' s').1 = refuse e) := by
  have hall : Output.allOfSeed S seed id first amounts = .ok originals := by
    rw [hid] at hmade hseed
    have hrun := (Plan.deriveAll_gives (fun _ h => h) use first amounts).run hseed
    rw [← hrun, hmade]
  obtain ⟨blanks, hblanks⟩ := Output.allOfSeed_total hd
  have hsorted : (hitsBetween issued first originals start count).Pairwise (·.counter < ·.counter) := by
    refine pairwise_hits (fun c h hc => ?_) start count.toNat
    obtain ⟨o, -, ho⟩ := Option.bind_eq_some_iff.mp hc
    exact counter_of_hit? ho
  refine ⟨hsorted, fun hm => ?_, fun hm => ?_⟩
  · have hrun := (restore_gives hw hk hid (fun _ h => h.1) (fun _ h => h.2) start count).run
      fun x hx => And.intro (hseed' x hx) (hm x hx)
    have hhits : hitsIn issued start blanks =
        (hitsBetween issued first originals start count).map Hit.blank := by
      rw [hitsBetween, List.map_filterMap]
      exact hitsIn_of_seed hblanks fun c hc o ho => hit?_of_original hall hissued hdiff hc ho
    rw [hblanks] at hrun
    change _ = Restored.ofHits S k (hitsIn issued start blanks) at hrun
    rw [hrun, hhits, ofHits_blank, ofHits_eq hsorted]
  · exact (restore_misaligned hw hk hid (fun _ h => h.1) (fun _ h => h.2) hblanks).run
      fun x hx => And.intro (hseed' x hx) (hm x hx)

/-- A keyset with keys for one and for two, the scalars three and five. -/
def threeAndFive : Keyset :=
  ⟨.str "01", .str "sat", .bool true, 0, .null, [(1, .str "0203"), (2, .str "0205")]⟩

def residueWallet : Wallet where
  settings :=
    ⟨false, "sat", "", .deterministic, "", ⟨"", 0, ""⟩, .standard, .standard, ⟨2, 1⟩, ⟨false⟩⟩
  chain := ⟨.str "sat", [threeAndFive]⟩
  seeded := true

/-- A mint that has signed the outputs for the counters 0 and 2, and answers in reverse. -/
def residueMint : Mint.Simulated where
  signers := [⟨threeAndFive, [(1, 3), (2, 5)], false⟩]
  behaviour := { Mint.Behaviour.honest with restoreReversed := true }
  states := []
  issued := [(.str "0244", ⟨2, .str "01", .str "0225", none⟩), (.str "023b", ⟨1, .str "01", .str "024c", none⟩)]

def residueWorld : World := World.fresh (some []) residueMint

/-- Outputs for the amount one. The third was signed for two. -/
def residueOriginals : List Output :=
  [⟨⟨1, .str "01", .str "023b"⟩, 1, Bytes.ofText "0000"⟩,
    ⟨⟨1, .str "01", .str "020d"⟩, 156, Bytes.ofText "0100"⟩,
    ⟨⟨1, .str "01", .str "0244"⟩, 412, Bytes.ofText "0200"⟩]

theorem residueMint_forthcoming : residueMint.Forthcoming := by
  refine ⟨rfl, rfl, fun b s h => ?_⟩
  have hall : ∀ x ∈ residueMint.issued, x.1.isKey = true := by decide
  exact hall _ (mem_of_lookup h)

/-- What was signed of the originals is found, by ascending counters. -/
theorem restore_reproduces_residues :
    ∃ hits, hits = hitsBetween (fun b => residueMint.issued.lookup b) 0 residueOriginals 0 4 ∧
      hits.map Hit.counter = [0, 2] ∧
      ((residueWallet.restore .residues 0 4 .null).run (World.handle .residues) residueWorld).1 = do
        let proofs ← hits.mapM fun h => h.output.toProof .residues h.signature threeAndFive
        return ⟨proofs, some 2⟩ := by
  have hmade : ((Plan.deriveAll .residues threeAndFive.id .reserved 0 [1, 1, 1]).run
      (World.handle .residues) residueWorld).1 = .ok residueOriginals := by decide +kernel
  have hissued : ∀ x ∈ residueMint.issued, ∃ o ∈ residueOriginals, o.message.b = x.1 := by decide
  have hd : ∀ c ∈ countersFrom 0 4, ∃ o, Output.ofSeed .residues [] "01" 0 c = .ok o := by
    intro c hc
    rw [mem_countersFrom] at hc
    exact Output.ofSeed_residues.mpr (by omega)
  have hpoints : ∀ c ∈ countersFrom 0 4, ∀ c' ∈ countersFrom 0 4,
      (Output.ofSeed .residues [] "01" 0 c).map (·.message.b) =
        (Output.ofSeed .residues [] "01" 0 c').map (·.message.b) → c = c' := by decide +kernel
  have hdiff : PointsDiffer .residues [] "01" (countersFrom 0 4 ++ countersFrom 0 3) := by
    intro c hc c' hc' o o' ho ho' hb
    simp only [List.mem_append, mem_countersFrom] at hc hc'
    refine hpoints c (mem_countersFrom.mpr (by omega)) c' (mem_countersFrom.mpr (by omega)) ?_
    rw [ho, ho']
    exact congrArg Except.ok hb
  have hrecalls := history_recalling (S := .residues) residueMint_forthcoming
    ((only_restore .residues residueWallet 0 4 .null).mono fun _ => Command.Restoring.recovering)
    (w := residueWorld) rfl rfl
  obtain ⟨-, hrun, -⟩ := restore_reproduces (World.handle .residues) residueWorld (World.handle .residues)
    residueWorld .residues residueWallet [] .null threeAndFive "01" .reserved [1, 1, 1] 0 residueOriginals
    (fun b => residueMint.issued.lookup b) 0 4 rfl (by decide +kernel) rfl hmade (history_fromSeed _ rfl)
    (fun b s h => hissued _ (mem_of_lookup h)) hd hdiff (history_fromSeed _ rfl)
  exact ⟨_, rfl, by decide +kernel, hrun fun x hx => (hrecalls x hx).1⟩

def unknownVersionWallet : Wallet :=
  { residueWallet with chain := ⟨.str "sat", [{ threeAndFive with id := .str "02aa" }]⟩ }

/-- Derived counters end at 2^64, and keysets of other versions have none. Of such ranges
nothing was signed, but restoring them fails. -/
theorem restore_underivable :
    hitsBetween (fun b => residueMint.issued.lookup b) 0 residueOriginals (2 ^ 64) 1 = [] ∧
      (World.run .secp256k1 (residueWallet.restore .secp256k1 (2 ^ 64) 1 .null) residueWorld).1 =
        .error .tooLarge ∧
      (World.run .secp256k1 (unknownVersionWallet.restore .secp256k1 0 1 .null) residueWorld).1 =
        .error (.derivation (.unknownVersion "02")) := by decide +kernel

end Wallet

end Ecash
