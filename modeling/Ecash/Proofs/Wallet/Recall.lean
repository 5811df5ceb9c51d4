import Ecash.Proofs.Derived
import Ecash.Proofs.Wallet.Operations
import Ecash.World

/-!
# What a mint recalls

A mint may list what it has signed in any order, and list more than it was asked
about: the wallet goes by blinded points (`Recall.lookup`). The reproducible world
derives from its seed (`history_fromSeed`) and recalls everything that it has signed,
unless its mint keeps something back (`history_recalling`).
-/
namespace Ecash

open Program

variable {S : Suite} {seed : Bytes}

namespace Wallet

theorem mem_of_lookup {table : List (Json × BlindedSignature)} {b : Json} {s : BlindedSignature}
    (h : table.lookup b = some s) : (b, s) ∈ table := by
  obtain ⟨l₁, l₂, rfl, -⟩ := List.lookup_eq_some_iff.mp h
  simp

/-- A table that has nothing but `r` for a point gives `r`, wherever it stands. -/
theorem lookup_of_mem_iff {table : List (Json × BlindedSignature)} {b : Json}
    {r : Option BlindedSignature} (h : ∀ s, (b, s) ∈ table ↔ r = some s) : table.lookup b = r := by
  cases hl : table.lookup b with
  | some s => exact ((h s).mp (mem_of_lookup hl)).symm
  | none =>
    cases r with
    | none => rfl
    | some s =>
      have hb := List.lookup_eq_none_iff.mp hl _ ((h s).mpr rfl)
      simp at hb

/-- Messages and signatures, as many of each, and those of the messages that were
asked for are the ones that were issued. -/
structure Recall (issued : Json → Option BlindedSignature) (asked : List BlindedMessage)
    (answer : List BlindedMessage × List BlindedSignature) : Prop where
  aligned : answer.1.length = answer.2.length
  keys : ∀ m ∈ answer.1, m.b.isKey = true
  issued : ∀ m ∈ asked, ∀ s, (m.b, s) ∈ (answer.1.map BlindedMessage.b).zip answer.2 ↔
    issued m.b = some s

/-- In whatever order the mint lists what it has signed, and whatever else it lists:
the lookup finds what was issued. -/
theorem Recall.lookup {issued : Json → Option BlindedSignature} {asked : List BlindedMessage}
    {answer : List BlindedMessage × List BlindedSignature} (h : Recall issued asked answer) :
    ∃ signed, signaturesByPoint answer.1 answer.2 = .ok signed ∧
      ∀ m ∈ asked, signed.lookup m.b = issued m.b := by
  unfold signaturesByPoint
  rw [if_pos (List.all_eq_true.mpr h.keys)]
  refine ⟨_, rfl, fun m hm => lookup_of_mem_iff fun s => ?_⟩
  rw [List.mem_reverse]
  exact h.issued m hm s

end Wallet

/-- A restore is answered from what the mint has issued. -/
def Exchange.Recalls (issued : Json → Option BlindedSignature) : Exchange → Prop
  | ⟨.call (.restore asked), r⟩ => ∃ answer, r = .ok answer ∧ Wallet.Recall issued asked answer
  | _ => True

/-- The source moves a cursor, or says that it cannot move cursors. -/
def Exchange.Advances : Exchange → Prop
  | ⟨.advance .., r⟩ => r = .ok () ∨ ∃ e : Failure, r = .error e ∧ e.ofKind [.capability] = true
  | _ => True

/-- The answer to a restore has not as many signatures as messages. -/
def Exchange.Misaligned : Exchange → Prop
  | ⟨.call (.restore _), r⟩ => ∃ answer, r = .ok answer ∧ answer.1.length ≠ answer.2.length
  | _ => True

/-! ## The reproducible world -/

/-- The mint gives every signature on what it is asked about. -/
structure Mint.Simulated.Forthcoming (m : Mint.Simulated) : Prop where
  answers : m.behaviour.refusals.lookup "restore" = none
  complete : m.behaviour.restoreDropped = 0
  keys : ∀ b s, m.issued.lookup b = some s → b.isKey = true

/-- In whatever order, it lists each message that it knows with the signature on it. -/
theorem Mint.Simulated.Forthcoming.restore_eq {m : Mint.Simulated} (hm : m.Forthcoming)
    (asked : List BlindedMessage) : ∃ found : List (BlindedMessage × BlindedSignature),
      (∀ x, x ∈ found ↔ x.1 ∈ asked ∧ m.issued.lookup x.1.b = some x.2) ∧
      m.restore asked = (found.map Prod.fst, found.map Prod.snd) := by
  have hmem (x : BlindedMessage × BlindedSignature) :
      (x ∈ asked.filterMap fun o => (m.issued.lookup o.b).map fun s => (o, s)) ↔
        x.1 ∈ asked ∧ m.issued.lookup x.1.b = some x.2 := by
    rw [List.mem_filterMap]
    constructor
    · rintro ⟨o, ho, h⟩
      obtain ⟨s, hs, rfl⟩ := Option.map_eq_some_iff.mp h
      exact ⟨ho, hs⟩
    · rintro ⟨ho, hs⟩
      exact ⟨x.1, ho, by rw [hs]; rfl⟩
  unfold Mint.Simulated.restore
  dsimp only
  rw [hm.complete, Nat.sub_zero]
  split
  · exact ⟨_, fun x => by rw [List.mem_reverse]; exact hmem x, by rw [← List.length_map, List.take_length]⟩
  · exact ⟨_, hmem, by rw [← List.length_map, List.take_length]⟩

theorem Mint.Simulated.Forthcoming.recall_restore {m : Mint.Simulated} (hm : m.Forthcoming)
    (asked : List BlindedMessage) :
    Wallet.Recall (fun b => m.issued.lookup b) asked (m.restore asked) := by
  obtain ⟨found, hfound, hrestore⟩ := hm.restore_eq asked
  rw [hrestore]
  have hzip : ((found.map Prod.fst).map BlindedMessage.b).zip (found.map Prod.snd) =
      found.map fun x => (x.1.b, x.2) := by
    rw [List.map_map, List.zip_map']
    rfl
  refine ⟨by simp, fun m' hm' => ?_, fun m' hm' s => ?_⟩
  · obtain ⟨x, hx, rfl⟩ := List.mem_map.mp hm'
    exact hm.keys _ _ ((hfound x).mp hx).2
  · dsimp only
    rw [hzip, List.mem_map]
    constructor
    · rintro ⟨x, hx, h⟩
      obtain ⟨hb, rfl⟩ := Prod.mk.inj h
      rw [← hb]
      exact ((hfound x).mp hx).2
    · intro hs
      exact ⟨(m', s), (hfound _).mpr ⟨hm', hs⟩, rfl⟩

namespace Wallet

/-- A world derives from its seed, and keeps it. -/
theorem fromSeed_handle (c : Command) {w : World} (hw : w.seed = some seed) :
    Exchange.FromSeed S seed ⟨c, (World.handle S c w).1⟩ ∧ (World.handle S c w).2.seed = some seed := by
  cases c with
  | derive id counter use =>
    refine ⟨?_, hw⟩
    cases id with
    | str id =>
      change w.derive S (.str id) counter = _
      unfold World.derive
      rw [hw]
    | _ => trivial
  | _ => exact ⟨trivial, hw⟩

theorem history_fromSeed {α : Type} (p : Program α) {w : World} (hw : w.seed = some seed) :
    ∀ x ∈ p.history (World.handle S) w, x.FromSeed S seed := by
  induction p generalizing w with
  | done r => simp [Program.history]
  | ask c next ih =>
    obtain ⟨hx, hw⟩ := fromSeed_handle (S := S) c hw
    exact List.forall_mem_cons.mpr ⟨hx, ih _ hw⟩

/-- One answer of a world to a recovery. The world stays as it is, its cursors and
its records apart. -/
theorem recalling_handle {m : Mint.Simulated} (hm : m.Forthcoming) (c : Command) {w : World}
    (hc : c.Recovering) (hw : w.mint = m ∧ w.source = .inMemory) :
    (Exchange.Recalls (fun b => m.issued.lookup b) ⟨c, (World.handle S c w).1⟩ ∧
      Exchange.Advances ⟨c, (World.handle S c w).1⟩) ∧
    (World.handle S c w).2.mint = m ∧ (World.handle S c w).2.source = .inMemory := by
  cases c with
  | advance id least =>
    refine ⟨⟨trivial, .inl ?_⟩, hw⟩
    change (w.source.advance id least w.cursors).1 = .ok ()
    rw [hw.2]
    rfl
  | derive id counter use => exact ⟨⟨trivial, trivial⟩, hw⟩
  | warn x => exact ⟨⟨trivial, trivial⟩, hw⟩
  | record x => exact ⟨⟨trivial, trivial⟩, hw⟩
  | call c =>
    cases c with
    | restore asked =>
      have hanswer : w.mint.answer S (.restore asked) = (.ok (m.restore asked), m) := by
        rw [hw.1]
        unfold Mint.Simulated.answer
        rw [show m.behaviour.refusals.lookup (MintCall.restore asked).operation = none from hm.answers]
        rfl
      refine ⟨⟨⟨m.restore asked, ?_, hm.recall_restore asked⟩, trivial⟩, ?_, hw.2⟩
      · exact congrArg Prod.fst hanswer
      · exact congrArg Prod.snd hanswer
    | _ => cases hc
  | _ => cases hc

/-- Every answer of a world to a recovery is from its mint's memory and its cursors. -/
theorem history_recalling {m : Mint.Simulated} (hm : m.Forthcoming) {α : Type} {p : Program α}
    (hp : p.Only Command.Recovering) {w : World} (hmint : w.mint = m) (hsource : w.source = .inMemory) :
    ∀ x ∈ p.history (World.handle S) w, x.Recalls (fun b => m.issued.lookup b) ∧ x.Advances :=
  Only.run_inv (I := fun w => w.mint = m ∧ w.source = .inMemory)
    (fun c _ hc hw => recalling_handle hm c hc hw) hp ⟨hmint, hsource⟩

end Wallet

end Ecash
