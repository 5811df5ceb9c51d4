import Ecash.Proofs.Program.Listeners
import Ecash.Proofs.Wallet.Restore

/-!
# Listeners do not matter

Each operation of the wallet announces news and is otherwise the same, whoever listens
(`announces_send` and the like). So no listener, subscribed or of the call, makes a difference to
what it does, and every one is told (`operations_undisturbed`).
-/
namespace Ecash

theorem Command.Quiet.plain {c : Command} (h : c.Quiet) : c.Plain := by
  cases c with
  | reserve | listeners | tell | call => cases h
  | warn w =>
    cases w with
    | selectionSlow => trivial
    | _ => cases h
  | _ => trivial

theorem Command.Making.plain {c : Command} (h : c.Making) : c.Plain := by
  cases c with
  | reserve | listeners | tell | call => cases h
  | warn w =>
    cases w with
    | negativeAmount amount => trivial
    | _ => cases h
  | _ => trivial

namespace Program

theorem announces_command {c : Command} (hc : c.Plain) : Announces fun _ => command c :=
  announces_of_only (Only.command hc)

theorem announces_counted {c : MintCall} (hc : (Command.call c).Plain) : Announces fun _ => counted c :=
  announces_of_only (Wallet.only_counted hc trivial)

end Program

open Program

/-! ## The reproducible world -/

namespace World

/-- The world without its listeners, and without what they and the log have taken down. -/
def unheard (w : World) : World := { w with registry := .empty, scribes := [], warnings := [], notes := [] }

theorem handle_unheard (S : Suite) {c : Command} (hc : c.listens = false) (w : World) :
    (handle S c w.unheard).1 = (handle S c w).1 ∧
      (handle S c w.unheard).2.unheard = (handle S c w).2.unheard := by
  cases c with
  | listeners t | tell l t notice => cases hc
  | _ => exact ⟨rfl, rfl⟩

theorem unheard_handle_of_listens (S : Suite) {c : Command} (hc : c.listens = true) (w : World) :
    (handle S c w).2.unheard = w.unheard := by
  cases c with
  | listeners t | tell l t notice | warn x => rfl
  | _ => cases hc

/-- Listeners of the reproducible world take notes, and do nothing else. -/
theorem agree_unheard (S : Suite) : Agree (handle S) (handle S) fun v w => v.unheard = w.unheard where
  same {c v w} hc h := by
    obtain ⟨hanswer, hstate⟩ := handle_unheard S hc v
    obtain ⟨hanswer', hstate'⟩ := handle_unheard S hc w
    rw [← hanswer, ← hstate, h, hanswer', hstate']
    exact ⟨rfl, rfl⟩
  left {_ v _} hc h := (unheard_handle_of_listens S hc v).trans h
  right {_ _ w} hc h := h.trans (unheard_handle_of_listens S hc w).symm

end World

/-! ## Operations -/

namespace Plan

variable (S : Suite)

theorem announces_assign (keyset : Json) (specs : List OutputSpec) :
    Announces fun own => assign keyset specs own.reserved := by
  unfold assign
  exact .ite (announces_pure _) (.reserving keyset _ fun _ => announces_pure _)

theorem announces_build (seeded : Bool) (k : Keyset) (specs : List OutputSpec) :
    Announces fun _ => specs.mapM (build S seeded k) :=
  announces_of_only ((Only.mapM (only_build S seeded k) specs).mono fun _ => Command.Making.plain)

theorem announces_finish (seeded : Bool) (k : Keyset) (s : OutputSpec) :
    Announces fun own => finish S seeded k s own.reserved := by
  refine (announces_assign k.id [s]).bind fun assigned => ?_
  exact .bind (announces_build ..) fun _ => announces_pure _

theorem announces_plan (settings : Settings.Output) (seeded : Bool) (k : Keyset) (r : Request) :
    Announces fun own => plan S settings seeded k r own.reserved := by
  refine .ite ?_ ?_
  · exact .bind (announces_command trivial) fun _ => announces_pure _
  · exact .bind (announces_lift _) fun s => announces_finish ..

theorem announces_blanks (seeded : Bool) (k : Keyset) (policy : Policy) (count : Int) :
    Announces fun own => blanks S seeded k policy count own.reserved := by
  cases policy with
  | custom data => exact announces_fail _
  | _ =>
    refine .ite (announces_pure _) ?_
    exact .bind (announces_lift _) fun _ => announces_finish ..

end Plan

namespace Wallet

variable (S : Suite) (w : Wallet)

theorem announces_swap (k : Keyset) (inputs : List Proof) (keep send : List Output) :
    Announces fun _ => swap S k inputs keep send :=
  .bind (announces_counted trivial) fun _ => announces_lift _

theorem announces_newOutputs (k : Keyset) (amount : Int) (o : NewProofs) :
    Announces fun own => w.newOutputs S k amount { o with onReserved := own.reserved } := by
  unfold newOutputs
  dsimp only
  exact .bind (announces_lift _) fun spec => Plan.announces_finish ..

theorem announces_receive (t : Token) (o : NewProofs) :
    Announces fun own => w.receive S t { o with onReserved := own.reserved } := by
  unfold receive
  dsimp only
  refine .ite (announces_fail _) <| .ite (announces_fail _) <| .ite (announces_pure _) ?_
  refine .bind (announces_lift _) fun k => .bind (announces_lift _) fun fee => ?_
  refine .ite (announces_fail _) ?_
  refine (announces_newOutputs S w k _ o).bind fun outputs => ?_
  exact .bind (announces_swap ..) fun _ => announces_pure _

theorem announces_mint (amount : Int) (quote : Json) (o : NewProofs) :
    Announces fun own => w.mint S amount quote { o with onReserved := own.reserved } := by
  unfold mint
  dsimp only
  refine .ite (announces_fail _) <| .bind (announces_lift _) fun k => ?_
  refine (announces_newOutputs S w k amount o).bind fun outputs => ?_
  refine .bind (announces_counted trivial) fun signatures => .ite ?_ (announces_lift _)
  exact .bind (announces_command trivial) fun _ => announces_fail _

/-- A melt is completed after it has been announced. -/
theorem announces_completeMelt (b : MeltBlanks) : Announces fun own => (do
    announce .changeOutputsCreated (.blanks b) own.blanks
    completeMelt S b) := by
  refine .melting b fun answer => ?_
  have hcounted : (Command.record (.operation (MintCall.melt b.payload).operation)).Plain := trivial
  refine .bind (announces_command hcounted) fun _ => .bind (announces_lift answer) fun response => ?_
  refine .ite ?_ ?_
  · exact .bind (announces_command trivial) fun _ => announces_fail _
  · exact .bind (announces_lift _) fun _ => announces_pure _

theorem announces_melt (quote : MeltQuote) (proofs : List Proof) (o : MeltOptions) :
    Announces fun own =>
      w.melt S quote proofs { o with onReserved := own.reserved, onBlanks := own.blanks } := by
  unfold melt
  dsimp only
  refine .bind (announces_lift _) fun k => .ite ?_ ?_
  · exact (Plan.announces_blanks ..).bind fun outputs => announces_completeMelt S _
  · exact .bind (announces_pure []) fun outputs => announces_completeMelt S _

theorem announces_sendBySwap (amount : Int) (proofs : List Proof) (o : SendOptions) :
    Announces fun own => w.sendBySwap S amount proofs { o with onReserved := own.reserved } := by
  unfold sendBySwap
  dsimp only
  refine .bind (announces_lift _) fun k => .bind (announces_lift _) fun target => ?_
  refine .bind (announces_of_only ((Selection.only_select ..).mono fun _ => Command.Quiet.plain))
    fun selected => ?_
  refine .ite (announces_fail _) <| .bind (announces_lift _) fun fee => ?_
  refine .ite (announces_fail _) <| .bind (announces_lift _) fun rest => ?_
  refine (Plan.announces_assign k.id [target, rest]).bind fun assigned => ?_
  refine .bind (Plan.announces_build ..) fun outputs => ?_
  exact .bind (announces_swap ..) fun _ => announces_pure _

theorem announces_send (amount : Int) (proofs : List Proof) (o : SendOptions) :
    Announces fun own => w.send S amount proofs { o with onReserved := own.reserved } := by
  have hoffline := (only_trySendOffline w amount proofs o).mono fun _ => Command.Quiet.plain
  refine .bind (announces_of_only hoffline) fun found => ?_
  cases found with
  | some found => exact announces_pure _
  | none => exact announces_sendBySwap ..

/-- Whoever is answered, an announcement tells the listener of the call and then all subscribers,
each once and the same, with a warning for each that fails. In every operation of the wallet
listeners make no difference to anything but themselves, and these are the announcements: one for
each block of counters that is granted, and one for each melt, before it is submitted. -/
theorem operations_undisturbed (S : Suite) (w : Wallet) :
    (∀ {σ : Type} (handle : (c : Command) → σ → c.Answer × σ) (s : σ) topic notice own,
      Emission topic notice own ((announce topic notice own).history handle s)) ∧
    (∀ k r, Undisturbed fun own => Plan.plan S w.settings.output w.seeded k r own.reserved) ∧
    (∀ k policy count, Undisturbed fun own => Plan.blanks S w.seeded k policy count own.reserved) ∧
    (∀ amount proofs (o : SendOptions), Undisturbed fun own =>
      w.send S amount proofs { o with onReserved := own.reserved }) ∧
    (∀ token (o : NewProofs), Undisturbed fun own =>
      w.receive S token { o with onReserved := own.reserved }) ∧
    (∀ amount quote (o : NewProofs), Undisturbed fun own =>
      w.mint S amount quote { o with onReserved := own.reserved }) ∧
    ∀ quote proofs (o : MeltOptions), Undisturbed fun own =>
      w.melt S quote proofs { o with onReserved := own.reserved, onBlanks := own.blanks } := by
  refine ⟨?_, ?_, ?_, ?_, ?_, ?_, ?_⟩
  · exact fun handle s topic notice own => (emission_run handle s topic notice own).2
  · exact fun k r => (Plan.announces_plan ..).undisturbed
  · exact fun k policy count => (Plan.announces_blanks ..).undisturbed
  · exact fun amount proofs o => (announces_send ..).undisturbed
  · exact fun token o => (announces_receive ..).undisturbed
  · exact fun amount quote o => (announces_mint ..).undisturbed
  · exact fun quote proofs o => (announces_melt ..).undisturbed

/-- A quote of one is paid with a proof of four, and one and two come back in two blanks. Both
listeners of the call fail, and so does one of the two that are subscribed, to the counters even
twice. -/
theorem operations_undisturbed_melt :
    let quote : MeltQuote := ⟨.str "q", 1, 3, .str "sat", .str "", .unpaid, .null, .null, []⟩
    let four : Proof := ⟨.str "01", 4, .str "a", .null, none, .null, none⟩
    let melt (own : OwnListeners) :=
      residueWallet.melt .residues quote [four] ⟨⟨.null, own.reserved⟩, none, own.blanks⟩
    let quiet := World.fresh (some [])
      { residueMint with behaviour := { Mint.Behaviour.honest with change := [1, 2] } }
    let loud := { quiet with
      scribes := [⟨"counters", true⟩, ⟨"blanks", true⟩, ⟨"first", true⟩, ⟨"second", false⟩],
      registry := ⟨[2, 3, 2], [3, 2]⟩ }
    let r := World.run .residues (melt ⟨some 0, some 1⟩) loud
    let r' := World.run .residues (melt ⟨none, none⟩) quiet
    r.1 = r'.1 ∧ r.1.toOption.map (fun melted => melted.change.map (·.amount)) = some [1, 2] ∧
      r.2.unheard = r'.2.unheard ∧ r.2.cursors = [(.str "01", 2)] ∧
      r.2.calls.map MintCall.operation = ["melt"] ∧
      r.2.notes.map Prod.fst = ["counters", "first", "second", "first", "blanks", "second", "first"] ∧
      r.2.warnings = List.replicate 3 (.listenerFailed .countersReserved) ++
        List.replicate 2 (.listenerFailed .changeOutputsCreated) ∧
      ∃ news, Heard ⟨some 0, some 1⟩ news ((melt ⟨some 0, some 1⟩).history (World.handle .residues) loud) ∧
        Heard ⟨none, none⟩ news ((melt ⟨none, none⟩).history (World.handle .residues) quiet) := by
  intro quote four melt quiet loud r r'
  obtain ⟨-, -, -, -, -, -, hmelts⟩ := operations_undisturbed .residues residueWallet
  have hmelt : Undisturbed melt := hmelts quote [four] ⟨⟨.null, none⟩, none, none⟩
  have hagree := World.agree_unheard .residues
  have hquiet : loud.unheard = quiet.unheard := rfl
  obtain ⟨hresult, hstate, -⟩ := hmelt.run hagree ⟨some 0, some 1⟩ ⟨none, none⟩ hquiet
  exact ⟨hresult, by decide +kernel, hstate, by decide +kernel, by decide +kernel, by decide +kernel,
    by decide +kernel, hmelt.news hagree loud quiet hquiet ⟨some 0, some 1⟩ ⟨none, none⟩⟩

end Wallet

end Ecash
