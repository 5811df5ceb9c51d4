import Ecash.Proofs.Plan.Slices
import Ecash.Wallet.Melt
import Ecash.Wallet.Restore

/-!
# Operations use the indices that they reserved

Each operation of the wallet that makes outputs for itself is frugal from
nothing on: whatever it is answered, and wherever it fails, it only uses indices
of the block that it reserved (`frugal_operation`). A restore derives old outputs
again, and moves the cursor past them; it uses no reserved index.
-/
namespace Ecash

/-- Derives an index for a recovery, or asks the mint what it has signed. -/
def Command.Restoring : Command → Prop
  | .derive _ _ .recovery | .call (.restore _) | .record (.operation _) => True
  | _ => False

/-- Restores, or moves a cursor past what was restored. -/
def Command.Recovering : Command → Prop
  | .advance .. | .warn _ => True
  | c => c.Restoring

theorem Command.Restoring.recovering {c : Command} (h : c.Restoring) : c.Recovering := by
  cases c with
  | advance | warn => trivial
  | _ => exact h

theorem Command.Recovering.idle {c : Command} (h : c.Recovering) : c.Idle := by
  cases c with
  | derive keyset counter use =>
    cases use with
    | recovery => trivial
    | reserved | pinned => cases h
  | reserve keyset n => cases h
  | _ => trivial

theorem Command.Deriving.restoring {c : Command} {keyset : Json}
    (h : c.Deriving keyset .recovery) : c.Restoring := by
  obtain ⟨counter, rfl⟩ := h
  trivial

namespace Wallet

open Program

/-- An operation that may reserve counters, or move them. -/
inductive Operation where
  | send (amount : Int) (proofs : List Proof) (o : SendOptions)
  | receive (token : Token) (o : NewProofs)
  | mint (amount : Int) (quote : Json) (o : NewProofs)
  | melt (quote : MeltQuote) (proofs : List Proof) (o : MeltOptions)
  | plan (k : Keyset) (r : Plan.Request) (own : Option Listener)
  | blanks (k : Keyset) (policy : Policy) (count : Int) (own : Option Listener)
  | batchRestore (gapLimit batchSize : Option Int) (counter : Int) (keyset : Json)
  deriving DecidableEq, Repr

/-- What the operation does; its result is of no concern here. -/
def Operation.program (S : Suite) (w : Wallet) : Operation → Program Unit
  | send amount proofs o => do let _ ← w.send S amount proofs o
  | receive token o => do let _ ← w.receive S token o
  | mint amount quote o => do let _ ← w.mint S amount quote o
  | melt quote proofs o => do let _ ← w.melt S quote proofs o
  | plan k r own => do let _ ← Plan.plan S w.settings.output w.seeded k r own
  | blanks k policy count own => do let _ ← Plan.blanks S w.seeded k policy count own
  | batchRestore gapLimit batchSize counter keyset => do
    let _ ← w.batchRestore S gapLimit batchSize counter keyset

variable (S : Suite) (w : Wallet) (k : Keyset)

/-! ## Without reserved indices -/

theorem only_counted {P : Command → Prop} {c : MintCall} (hc : P (.call c))
    (hm : P (.record (.operation c.operation))) : (counted c).Only P := by
  refine Only.bind (Only.attempt ?_) fun _ => ?_
  · exact ⟨hc, fun _ => trivial⟩
  · exact (Only.command hm).bind fun _ => Only.ofOutcome _

theorem only_swap (inputs : List Proof) (keep send : List Output) :
    (swap S k inputs keep send).Only Command.Idle :=
  (only_counted trivial trivial).bind fun _ => Only.lift _

theorem only_completeMelt (b : MeltBlanks) : (completeMelt S b).Only Command.Idle := by
  refine (only_counted trivial trivial).bind fun response => ?_
  split
  · exact (Only.command trivial).bind fun _ => Only.fail _
  · exact (Only.lift _).bind fun _ => Only.pure _

theorem only_restore (start count : Int) (id : Json) :
    (w.restore S start count id).Only Command.Restoring := by
  unfold restore
  split
  · exact Only.fail _
  · refine (Only.lift _).bind fun k => Only.bind ?_ fun outputs => ?_
    · exact (Plan.only_deriveAll ..).mono fun _ hc => hc.restoring
    · refine (only_counted trivial trivial).bind fun answer => ?_
      split
      · exact Only.fail _
      · exact (Only.lift _).bind fun _ => Only.lift _

theorem only_scan (id : Json) (batchSize required : Int) (batches : Nat) (counter empty : Int)
    (found : Restored) :
    (scan S w id batchSize required batches counter empty found).Only Command.Restoring := by
  induction batches generalizing counter empty found with
  | zero =>
    unfold scan
    split
    · exact Only.pure _
    · exact Only.ofOutcome _
  | succ n ih =>
    unfold scan
    split
    · exact Only.pure _
    · refine (only_restore ..).bind fun batch => ?_
      split
      · exact ih ..
      · exact ih ..

theorem only_skipRestored (keyset : Json) (last : Int) :
    (skipRestored keyset last).Only Command.Recovering := by
  refine Only.bind (Only.attempt ?_) fun r => ?_
  · exact ⟨trivial, fun _ => trivial⟩
  · split
    · exact Only.pure _
    · split
      · exact Only.command trivial
      · exact Only.ofOutcome _

theorem only_batchRestore (gapLimit batchSize : Option Int) (counter : Int) (id : Json) :
    (w.batchRestore S gapLimit batchSize counter id).Only Command.Recovering := by
  refine (Only.lift _).bind fun required => (Only.lift _).bind fun k => ?_
  refine ((only_scan ..).mono fun _ => Command.Restoring.recovering).bind fun found => ?_
  split
  · exact Only.pure _
  · exact (only_skipRestored ..).bind fun _ => Only.pure _

/-! ## With a block -/

theorem frugal_newOutputs (amount : Int) (o : NewProofs) :
    (w.newOutputs S k amount o).Frugal [] fun _ _ => True :=
  frugal_bind_of_lift fun _ hs => Plan.frugal_finish S w.seeded _ (Plan.configure_unassigned hs)

theorem frugal_receive (t : Token) (o : NewProofs) :
    (w.receive S t o).Frugal [] fun _ _ => True := by
  unfold receive
  split
  · exact frugal_fail _
  split
  · exact frugal_fail _
  split
  · exact frugal_pure trivial
  refine frugal_bind_of_lift fun k _ => frugal_bind_of_lift fun fee _ => ?_
  dsimp only
  split
  · exact frugal_fail _
  refine (frugal_newOutputs ..).bind fun outputs own _ => ?_
  exact frugal_bind_of_idle (only_swap ..) fun _ => frugal_pure trivial

theorem frugal_mint (amount : Int) (quote : Json) (o : NewProofs) :
    (w.mint S amount quote o).Frugal [] fun _ _ => True := by
  unfold mint
  split
  · exact frugal_fail _
  refine frugal_bind_of_lift fun k _ => ?_
  refine (frugal_newOutputs ..).bind fun outputs own _ => ?_
  refine frugal_bind_of_idle (only_counted trivial trivial) fun signatures => ?_
  split
  · exact frugal_bind_of_idle (Only.command trivial) fun _ => frugal_fail _
  · exact frugal_of_idle (Only.lift _) fun _ => trivial

theorem frugal_melt (quote : MeltQuote) (proofs : List Proof) (o : MeltOptions) :
    (w.melt S quote proofs o).Frugal [] fun _ _ => True := by
  have hrest (b : MeltBlanks) (own : List Index) : (do
      announce .changeOutputsCreated (.blanks b) o.onBlanks
      completeMelt S b).Frugal own fun _ _ => True := by
    refine frugal_bind_of_idle ((only_announce ..).mono fun _ => Command.Announcing.idle) fun _ => ?_
    exact frugal_of_idle (only_completeMelt ..) fun _ => trivial
  unfold melt
  refine frugal_bind_of_lift fun k _ => ?_
  dsimp only
  split
  · exact (Plan.frugal_blanks ..).bind fun outputs own _ => hrest _ own
  · exact frugal_bind_of_idle (Only.pure _) fun outputs => hrest _ []

theorem frugal_sendBySwap (amount : Int) (proofs : List Proof) (o : SendOptions) :
    (w.sendBySwap S amount proofs o).Frugal [] fun _ _ => True := by
  unfold sendBySwap
  refine frugal_bind_of_lift fun k _ => frugal_bind_of_lift fun target htarget => ?_
  refine frugal_bind_of_idle ((Selection.only_select ..).mono fun _ => Command.Quiet.idle)
    fun selected => ?_
  split
  · exact frugal_fail _
  refine frugal_bind_of_lift fun fee _ => ?_
  dsimp only
  split
  · exact frugal_fail _
  refine frugal_bind_of_lift fun rest hrest => ?_
  have hall : ∀ s ∈ [target, rest], s.Unassigned := by
    simp [Plan.configure_unassigned htarget, Plan.configure_unassigned hrest]
  refine (Plan.frugal_assign _ hall).bind fun r own hown => ?_
  refine (Plan.frugal_mapM_build S w.seeded hown.1 hown.2).bind fun outputs own' _ => ?_
  exact frugal_bind_of_idle (only_swap ..) fun _ => frugal_pure trivial

theorem frugal_send (amount : Int) (proofs : List Proof) (o : SendOptions) :
    (w.send S amount proofs o).Frugal [] fun _ _ => True := by
  refine frugal_bind_of_idle ((only_trySendOffline ..).mono fun _ => Command.Quiet.idle)
    fun found => ?_
  split
  · exact frugal_pure trivial
  · exact frugal_sendBySwap ..

theorem frugal_operation (op : Operation) : (op.program S w).Frugal [] fun _ _ => True := by
  unfold Operation.program
  cases op with
  | send amount proofs o => exact (frugal_send S w amount proofs o).discard
  | receive token o => exact (frugal_receive S w token o).discard
  | mint amount quote o => exact (frugal_mint S w amount quote o).discard
  | melt quote proofs o => exact (frugal_melt S w quote proofs o).discard
  | plan k r own => exact (Plan.frugal_plan ..).discard
  | blanks k policy count own => exact (Plan.frugal_blanks ..).discard
  | batchRestore gapLimit batchSize counter keyset =>
    exact frugal_bind_of_idle ((only_batchRestore ..).mono fun _ => Command.Recovering.idle) fun _ => frugal_pure trivial

end Wallet

end Ecash
