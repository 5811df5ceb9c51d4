import Ecash.Proofs.Wallet.Bare
import Ecash.Proofs.Wallet.Operations
import Ecash.Proofs.Wallet.Send

/-!
# Evidence stays with the wallet

The evidence of a proof holds the factor that its signature was blinded with: who
sees both can tell whose proof it is. No command of a spend shows evidence to the
mint or to a listener (`Wallet.discreet_spend`), and whoever answers two spends that
differ in evidence only cannot tell which one he answers (`Wallet.evidence_stays`).
-/
namespace Ecash

open Program

/-! ## What the mint and listeners are shown -/

/-- The proofs that a command shows to the mint or to a listener. -/
def Command.shown : Command → List Proof
  | .call (.swap p) => p.inputs
  | .call (.melt p) => p.inputs
  | .tell _ _ (.blanks b) => b.payload.inputs
  | _ => []

/-- None of them has evidence. -/
def Command.Discreet (c : Command) : Prop := ∀ q ∈ c.shown, q.dleq = none

namespace Command

variable {c : Command}

theorem discreet_of_shown (h : c.shown = []) : c.Discreet := by
  intro q hq
  rw [h] at hq
  cases hq

theorem Quiet.discreet (h : c.Quiet) : c.Discreet := by
  refine discreet_of_shown ?_
  cases c with
  | call | tell => cases h
  | _ => rfl

theorem Making.discreet (h : c.Making) : c.Discreet := by
  refine discreet_of_shown ?_
  cases c with
  | call | tell => cases h
  | _ => rfl

theorem Assigning.discreet (h : c.Assigning) : c.Discreet := by
  refine discreet_of_shown ?_
  cases c with
  | call => cases h
  | tell l t notice =>
    cases notice with
    | reserved r => rfl
    | blanks | value => cases h
  | _ => rfl

theorem Announcing.discreet {b : MeltBlanks} (h : c.Announcing (.blanks b))
    (hb : ∀ q ∈ b.payload.inputs, q.dleq = none) : c.Discreet := by
  cases c with
  | tell l t notice =>
    have hnotice : notice = .blanks b := h
    rw [hnotice]
    exact hb
  | listeners | warn => exact discreet_of_shown rfl
  | _ => cases h

end Command

theorem dleq_of_prepared {proofs : List Proof} :
    ∀ q ∈ proofs.map (·.prepared false), q.dleq = none := by
  intro q hq
  obtain ⟨q', -, rfl⟩ := List.mem_map.mp hq
  rfl

namespace Wallet

variable (S : Suite) (w : Wallet)

-- Addresses are compared here; how they are written does not matter.
attribute [local irreducible] sanitizeUrl

theorem discreet_swap (k : Keyset) (inputs : List Proof) (keep send : List Output) :
    (swap S k inputs keep send).Only Command.Discreet := by
  refine (only_counted ?_ (Command.discreet_of_shown rfl)).bind fun _ => Only.lift _
  exact dleq_of_prepared

theorem discreet_send (amount : Int) (proofs : List Proof) (o : SendOptions) :
    (w.send S amount proofs o).Only Command.Discreet := by
  refine ((only_trySendOffline ..).mono fun _ => Command.Quiet.discreet).bind fun found => ?_
  split
  · exact Only.pure _
  refine (Only.lift _).bind fun k => (Only.lift _).bind fun target => ?_
  refine ((Selection.only_select ..).mono fun _ => Command.Quiet.discreet).bind fun selected => ?_
  split
  · exact Only.fail _
  refine (Only.lift _).bind fun fee => ?_
  dsimp only
  split
  · exact Only.fail _
  refine (Only.lift _).bind fun rest => ?_
  refine ((Plan.only_assign ..).mono fun _ => Command.Assigning.discreet).bind fun specs => ?_
  refine ((Only.mapM (Plan.only_build S w.seeded k) _).mono
    fun _ => Command.Making.discreet).bind fun outputs => ?_
  exact (discreet_swap ..).bind fun _ => Only.pure _

theorem discreet_receive (t : Token) (o : NewProofs) :
    (w.receive S t o).Only Command.Discreet := by
  unfold receive
  split
  · exact Only.fail _
  split
  · exact Only.fail _
  split
  · exact Only.pure _
  refine (Only.lift _).bind fun k => (Only.lift _).bind fun fee => ?_
  dsimp only
  split
  · exact Only.fail _
  refine Only.bind ?_ fun outputs => (discreet_swap ..).bind fun _ => Only.pure _
  refine (Only.lift _).bind fun spec => ?_
  exact Plan.only_finish S (fun _ => Command.Assigning.discreet) (fun _ => Command.Making.discreet) ..

theorem discreet_completeMelt {b : MeltBlanks} (hb : ∀ q ∈ b.payload.inputs, q.dleq = none) :
    (completeMelt S b).Only Command.Discreet := by
  refine (only_counted hb (Command.discreet_of_shown rfl)).bind fun response => ?_
  split
  · exact (Only.command (Command.discreet_of_shown rfl)).bind fun _ => Only.fail _
  · exact (Only.lift _).bind fun _ => Only.pure _

theorem discreet_melt (quote : MeltQuote) (proofs : List Proof) (o : MeltOptions) :
    (w.melt S quote proofs o).Only Command.Discreet := by
  have hrest (k : Keyset) (outputs : List Output) :
      let b : MeltBlanks := ⟨⟨quote.quote, proofs.map (·.prepared false), outputs.map Output.message⟩,
        outputs, k, quote⟩
      (do announce .changeOutputsCreated (.blanks b) o.onBlanks
          completeMelt S b : Program Melted).Only Command.Discreet := by
    intro b
    have hannounce := (only_announce .changeOutputsCreated (.blanks b) o.onBlanks).mono
      fun _ hc => hc.discreet dleq_of_prepared
    exact hannounce.bind fun _ => discreet_completeMelt S dleq_of_prepared
  unfold melt
  refine (Only.lift _).bind fun k => ?_
  dsimp only
  split
  · refine Only.bind ?_ fun outputs => hrest k outputs
    exact Plan.only_blanks S (fun _ => Command.Assigning.discreet) (fun _ => Command.Making.discreet) ..
  · exact (Only.pure _).bind fun outputs => hrest k outputs

/-! ## Two runs -/

/-- An operation that spends proofs. -/
inductive Spend where
  | send (amount : Int) (proofs : List Proof) (o : SendOptions)
  | receive (t : Token) (o : NewProofs)
  | melt (quote : MeltQuote) (proofs : List Proof) (o : MeltOptions)
  deriving DecidableEq, Repr

/-- What a spend ends with. -/
inductive Spent where
  | sent (p : Partition)
  | received (proofs : List Proof)
  | melted (m : Melted)
  deriving DecidableEq, Repr

namespace Spend

/-- The proofs to spend. -/
def proofs : Spend → List Proof
  | send _ proofs _ | melt _ proofs _ => proofs
  | receive t _ => t.proofs

/-- What the operation does. -/
def program : Spend → Program Spent
  | send amount proofs o => do return .sent (← w.send S amount proofs o)
  | receive t o => do return .received (← w.receive S t o)
  | melt quote proofs o => do return .melted (← w.melt S quote proofs o)

/-- The two differ in nothing but the evidence of the proofs to spend. -/
inductive Like : Spend → Spend → Prop where
  | send {ps qs : List Proof} (amount : Int) (o : SendOptions) (h : SameBare ps qs) :
    Like (send amount ps o) (send amount qs o)
  | receive {t t' : Token} (o : NewProofs) (hmint : t.mint = t'.mint) (hunit : t.unit = t'.unit)
    (h : SameBare t.proofs t'.proofs) : Like (receive t o) (receive t' o)
  | melt {ps qs : List Proof} (quote : MeltQuote) (o : MeltOptions) (h : SameBare ps qs) :
    Like (melt quote ps o) (melt quote qs o)

end Spend

/-- The same, but for the evidence of proofs that were there before and are kept. -/
def SameSpent (ps qs : List Proof) : Spent → Spent → Prop
  | .sent x, .sent y => SameSent ps qs x y
  | x, y => x = y

theorem alike_spend {op op' : Spend} (h : op.Like op') :
    Alike (SameSpent op.proofs op'.proofs) (op.program S w) (op'.program S w) := by
  cases h with
  | send amount o h => exact (alike_send S h w amount o).bind fun _ _ hxy => alike_pure hxy
  | receive o hmint hunit h =>
    unfold Spend.program
    dsimp only
    rw [receive_eq S hmint hunit h]
    exact Alike.after fun _ => alike_pure rfl
  | melt quote o h =>
    unfold Spend.program
    dsimp only
    rw [melt_eq S h]
    exact Alike.after fun _ => alike_pure rfl

theorem discreet_spend (op : Spend) : (op.program S w).Only Command.Discreet := by
  cases op with
  | send amount proofs o => exact (discreet_send S w amount proofs o).bind fun _ => Only.pure _
  | receive t o => exact (discreet_receive S w t o).bind fun _ => Only.pure _
  | melt quote proofs o => exact (discreet_melt S w quote proofs o).bind fun _ => Only.pure _

/-- Whoever deals out chance, time, secrets and counters, listens and is the mint: two
operations that differ in the evidence of proofs ask him for the same, tell him the
same, and show him no evidence. They leave the same behind, and end alike; so do
attempts to complete a melt with the blanks that he was told of. -/
theorem evidence_stays {σ : Type} (handle : (c : Command) → σ → c.Answer × σ) (s : σ)
    {op op' : Spend} (h : op.Like op') :
    let p := op.program S w
    let q := op'.program S w
    p.history handle s = q.history handle s ∧ (p.run handle s).2 = (q.run handle s).2 ∧
      Outcome.Matches (SameSpent op.proofs op'.proofs) (p.run handle s).1 (q.run handle s).1 ∧
      (∀ x ∈ p.history handle s, x.command.Discreet) ∧
      ∀ x ∈ p.history handle s, ∀ l t b, x.command = .tell l t (.blanks b) →
        (completeMelt S b).run handle (p.run handle s).2 =
            (completeMelt S b).run handle (q.run handle s).2 ∧
          (completeMelt S b).history handle (p.run handle s).2 =
            (completeMelt S b).history handle (q.run handle s).2 ∧
          ∀ y ∈ (completeMelt S b).history handle (p.run handle s).2, y.command.Discreet := by
  intro p q
  have halike : Alike (SameSpent op.proofs op'.proofs) p q := alike_spend S w h
  obtain ⟨hends, hstate⟩ := halike.run handle s
  have hdiscreet : ∀ x ∈ p.history handle s, x.command.Discreet :=
    (discreet_spend S w op).history (yields_run handle p s)
  refine ⟨halike.history handle s, hstate, hends, hdiscreet, fun x hx l t b hb => ?_⟩
  have hshown : ∀ q ∈ b.payload.inputs, q.dleq = none := by
    have hx := hdiscreet x hx
    rw [hb] at hx
    exact hx
  rw [hstate]
  exact ⟨rfl, rfl, (discreet_completeMelt S hshown).history (yields_run handle _ _)⟩

/-- The proofs of one and of two, with evidence. -/
def evidencedOnes : List Proof :=
  onesProofs.map fun q => { q with dleq := some ⟨.str "e", .str "s", .str "r"⟩ }

/-- A unit is sent by a swap. The proof that is kept has evidence in the second run
only, and nobody else can tell. -/
theorem evidence_stays_ones :
    let world := World.fresh none (.fresh [⟨ones, [(1, 1)], false⟩])
    let p := (Spend.send 1 onesProofs onesOptions).program oneElement onesWallet
    let q := (Spend.send 1 evidencedOnes onesOptions).program oneElement onesWallet
    (p.run (World.handle oneElement) world).1 ≠ (q.run (World.handle oneElement) world).1 ∧
      Outcome.Matches (SameSpent onesProofs evidencedOnes) (p.run (World.handle oneElement) world).1
        (q.run (World.handle oneElement) world).1 ∧
      p.history (World.handle oneElement) world = q.history (World.handle oneElement) world := by
  intro world p q
  have hlike : (Spend.send 1 onesProofs onesOptions).Like (.send 1 evidencedOnes onesOptions) :=
    .send 1 onesOptions (by decide)
  have hdiffer : (p.run (World.handle oneElement) world).1 ≠ (q.run (World.handle oneElement) world).1 := by
    decide +kernel
  obtain ⟨hhistory, -, hends, -⟩ :=
    evidence_stays oneElement onesWallet (World.handle oneElement) world hlike
  exact ⟨hdiffer, hends, hhistory⟩

end Wallet

end Ecash
