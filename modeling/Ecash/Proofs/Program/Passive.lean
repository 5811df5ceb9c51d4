import Ecash.Proofs.Program.Run
import Ecash.Wallet.Send

/-!
# Programs that leave the world alone

A selection asks for nothing but orders and the time (`only_select`), and so does
a send without a swap (`only_trySendOffline`); the news of an event reaches
listeners only (`only_announce`). Outputs are drawn or
derived (`only_drawn`, `only_deriveAll`), and planning them does not talk to the
mint (`only_assign`, `only_build`).
-/
namespace Ecash

/-- Asks for an order or the time, or leaves a note about a selection: no operation
depends on whether another one did so. -/
def Command.Quiet : Command → Prop
  | .shuffle _ | .now | .warn .selectionSlow | .record (.selection _)
  | .record (.selectionTimeout _) => True
  | _ => False

/-- Passes on this news. -/
def Command.Announcing (notice : Notice) : Command → Prop
  | .listeners _ | .warn _ => True
  | .tell _ _ n => n = notice
  | _ => False

/-- Draws what an output is made of, or has it made by the caller. -/
def Command.Drawing : Command → Prop
  | .freshSecret | .freshFactor | .produce .. => True
  | _ => False

/-- Derives an index of the keyset for the given use. -/
def Command.Deriving (keyset : Json) (use : IndexUse) (c : Command) : Prop :=
  ∃ counter, c = .derive keyset counter use

/-- Makes an output, or warns that there is none to make. -/
def Command.Making : Command → Prop
  | .freshSecret | .freshFactor | .produce .. | .derive .. | .warn (.negativeAmount _) => True
  | _ => False

/-- Reserves counters, and says so. -/
def Command.Assigning : Command → Prop
  | .reserve .. | .record (.countersReserved ..) | .listeners _ | .warn _
  | .tell _ _ (.reserved _) => True
  | _ => False

/-- Does not call the mint. -/
def Command.Local : Command → Prop
  | .call _ => False
  | _ => True

namespace Command

variable {c : Command}

theorem Quiet.local (h : c.Quiet) : c.Local := by
  cases c with
  | call c => cases h
  | _ => trivial

theorem Making.local (h : c.Making) : c.Local := by
  cases c with
  | call c => cases h
  | _ => trivial

theorem Assigning.local (h : c.Assigning) : c.Local := by
  cases c with
  | call c => cases h
  | _ => trivial

theorem Announcing.local {notice : Notice} (h : c.Announcing notice) : c.Local := by
  cases c with
  | call c => cases h
  | _ => trivial

theorem Drawing.making (h : c.Drawing) : c.Making := by
  cases c <;> trivial

theorem Deriving.making {keyset : Json} {use : IndexUse} (h : c.Deriving keyset use) : c.Making := by
  obtain ⟨counter, rfl⟩ := h
  trivial

theorem Announcing.assigning {r : Reservation} (h : c.Announcing (.reserved r)) : c.Assigning := by
  cases c with
  | tell l t notice =>
    have hnotice : notice = .reserved r := h
    subst hnotice
    trivial
  | listeners t => trivial
  | warn w => trivial
  | _ => cases h

end Command

namespace Program

variable {α : Type} {P : Command → Prop}

theorem Only.pure (a : α) : (pure a : Program α).Only P := trivial

theorem Only.ofOutcome (r : Outcome α) : (ofOutcome r).Only P := trivial

theorem Only.lift (r : Outcome α) : (liftM r : Program α).Only P := trivial

theorem Only.fail (e : WalletError) : (fail e : Program α).Only P := trivial

theorem only_tell (topic : Topic) (notice : Notice) (l : Listener) :
    (tell topic notice l).Only (Command.Announcing notice) := by
  have hself : Command.Announcing notice (.tell l topic notice) := rfl
  refine (Only.command hself).bind fun took => ?_
  split
  · exact Only.pure ()
  · exact Only.command trivial

theorem only_announce (topic : Topic) (notice : Notice) (own : Option Listener) :
    (announce topic notice own).Only (Command.Announcing notice) := by
  refine (Only.forM (only_tell topic notice) _).bind fun _ => ?_
  exact (Only.command trivial).bind fun ls => Only.forM (only_tell topic notice) ls

end Program

open Program

namespace Selection

theorem only_search (r : Request) (l : Limits) (most : Int) (cs : List Candidate) (started : Float)
    (n : Nat) (best : Option Best) : (search r l most cs started n best).Only Command.Quiet := by
  induction n generalizing best with
  | zero => exact Only.pure _
  | succ n ih =>
    unfold search
    refine Only.bind ?_ fun s => ?_
    · exact (Only.command trivial).bind fun _ => (Only.command trivial).bind fun _ => Only.pure _
    · dsimp only
      split
      · exact Only.pure _
      · refine (Only.command trivial).bind fun t => ?_
        split
        · refine (Only.command trivial).bind fun _ => ?_
          split
          · exact Only.fail _
          · exact (Only.command trivial).bind fun _ => Only.pure _
        · exact ih _

theorem only_choose (chain : KeyChain) (l : Limits) (r : Request) (proofs : List Proof) :
    (choose chain l r proofs).Only Command.Quiet := by
  unfold choose
  refine (Only.command trivial).bind fun _ => (Only.lift _).bind fun os => ?_
  dsimp only
  split
  · exact Only.pure _
  · refine (Only.lift _).bind fun most => (only_search ..).bind fun found => ?_
    split
    · exact Only.pure _
    · exact (Only.command trivial).bind fun _ => Only.pure _

theorem only_select (chain : KeyChain) (l : Limits) (r : Request) (proofs : List Proof) :
    (select chain l r proofs).Only Command.Quiet :=
  (only_choose chain l r proofs).attempt.bind fun _ =>
    (Only.command trivial).bind fun _ => Only.ofOutcome _

end Selection

namespace Plan

theorem only_assign (keyset : Json) (specs : List OutputSpec) (own : Option Listener) :
    (assign keyset specs own).Only Command.Assigning := by
  unfold assign
  dsimp only
  split
  · exact Only.pure _
  · refine Only.bind ⟨trivial, fun _ => trivial⟩ fun block => ?_
    refine (Only.command trivial).bind fun _ => ?_
    exact ((only_announce ..).mono fun _ => Command.Announcing.assigning).bind fun _ => Only.pure _

variable (S : Suite)

theorem only_deriveAll (keyset : Json) (use : IndexUse) (start : Int) (parts : List Int) :
    (deriveAll S keyset use start parts).Only (Command.Deriving keyset use) := by
  induction parts generalizing start with
  | nil => exact Only.pure _
  | cons amount rest ih =>
    refine Only.bind ?_ fun o => (ih _).bind fun _ => Only.pure _
    exact Only.bind ⟨⟨start, rfl⟩, fun _ => trivial⟩ fun _ => Only.lift _

theorem only_blinded (keyset : Json) (secret : String) (amount : Int) :
    (blinded S keyset secret amount).Only Command.Drawing :=
  (Only.command trivial).bind fun _ => Only.lift _

/-- Without the seed, outputs are drawn. -/
theorem only_drawn (seeded : Bool) (k : Keyset) {policy : Policy} (counter : Option Int)
    (parts : List Int) (h : policy.isDeterministic = false) :
    (outputs S seeded k policy counter parts).Only Command.Drawing := by
  unfold outputs
  split
  · exact Only.mapM (fun amount => (Only.command trivial).bind fun _ => only_blinded ..) _
  · refine Only.mapM (fun amount => ?_) _
    unfold locked
    split
    · exact Only.fail _
    · exact (Only.command trivial).bind fun _ => only_blinded ..
  · refine Only.mapM (fun amount => ?_) _
    exact ⟨trivial, fun _ => trivial⟩
  · exact Only.pure _
  · cases h

theorem only_outputs (seeded : Bool) (k : Keyset) (policy : Policy) (counter : Option Int)
    (parts : List Int) : (outputs S seeded k policy counter parts).Only Command.Making := by
  cases h : policy.isDeterministic with
  | false => exact (only_drawn S seeded k counter parts h).mono fun _ => Command.Drawing.making
  | true =>
    cases policy with
    | deterministic _ _ =>
      unfold outputs
      dsimp only
      split
      · exact Only.fail _
      · split
        · exact (only_deriveAll ..).mono fun _ => Command.Deriving.making
        · exact Only.fail _
    | random _ | locked _ _ | factory _ _ | custom _ => cases h

theorem only_build (seeded : Bool) (k : Keyset) (s : OutputSpec) :
    (build S seeded k s).Only Command.Making := by
  unfold build
  split
  · exact (Only.command trivial).bind fun _ => Only.pure _
  · split
    · exact Only.pure _
    · have hrest (parts : List Int) : (if parts.isEmpty then pure []
          else outputs S seeded k s.policy s.counter parts : Program _).Only Command.Making := by
        split
        · exact Only.pure _
        · exact only_outputs ..
      dsimp only
      split
      · exact (Only.lift _).bind hrest
      · exact (Only.lift _).bind fun _ => (Only.pure _).bind hrest

variable {P : Command → Prop}

theorem only_finish (ha : ∀ c, c.Assigning → P c) (hm : ∀ c, c.Making → P c) (seeded : Bool)
    (k : Keyset) (s : OutputSpec) (own : Option Listener) : (finish S seeded k s own).Only P := by
  refine ((only_assign ..).mono ha).bind fun specs => ?_
  exact ((Only.mapM (only_build S seeded k) _).mono hm).bind fun _ => Only.pure _

theorem only_blanks (ha : ∀ c, c.Assigning → P c) (hm : ∀ c, c.Making → P c) (seeded : Bool)
    (k : Keyset) (policy : Policy) (count : Int) (own : Option Listener) :
    (blanks S seeded k policy count own).Only P := by
  unfold blanks
  split
  · exact Only.fail _
  split
  · exact Only.pure _
  · exact (Only.lift _).bind fun _ => only_finish S ha hm ..

end Plan

namespace Wallet

theorem only_sendOffline (w : Wallet) (amount : Int) (proofs : List Proof) (o : OfflineOptions) :
    (w.sendOffline amount proofs o).Only Command.Quiet := by
  unfold sendOffline
  extract_lets offered
  split
  · exact Only.fail _
  · exact (Selection.only_select ..).bind fun _ => Only.pure _

theorem only_trySendOffline (w : Wallet) (amount : Int) (proofs : List Proof) (o : SendOptions) :
    (w.trySendOffline amount proofs o).Only Command.Quiet := by
  unfold trySendOffline
  split
  · exact Only.pure _
  · refine Only.bind (Only.attempt ?_) fun r => ?_
    · refine (only_sendOffline ..).bind fun _ => ?_
      dsimp only
      split
      · exact (Only.lift _).bind fun _ => Only.pure _
      · exact (Only.pure _).bind fun _ => Only.pure _
    · split
      · exact Only.pure _
      · exact Only.pure _
      · exact Only.ofOutcome _

end Wallet

end Ecash
