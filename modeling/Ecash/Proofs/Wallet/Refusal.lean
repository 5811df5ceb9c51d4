import Ecash.Proofs.Plan.Buildable
import Ecash.Proofs.Wallet.Operations
import Ecash.Proofs.Wallet.Send

/-!
# Refusals leave no trace

An operation that is refused for its options, its funds or its keyset, and not by
whoever answers it, has reserved no counter, told no listener and submitted nothing
(`refusal_without_trace`). One kind of operation is left out: a send with fees of a
negative amount in denominations of the wallet's choice. No parts add up to its
amount, and it is found out only when its counters are gone (`negative_send_reserves`).
-/
namespace Ecash

variable {e : Failure} {c : Command}

theorem Command.Quiet.not_commits (h : c.Quiet) : ¬ c.Commits := by
  cases c with
  | record m =>
    cases m with
    | countersReserved => cases h
    | _ => exact id
  | reserve | advance | tell | call => cases h
  | _ => exact id

theorem Command.Restoring.not_commits (h : c.Restoring) : ¬ c.Commits := by
  cases c with
  | record m =>
    cases m with
    | operation => exact id
    | _ => cases h
  | call m =>
    cases m with
    | restore => exact id
    | _ => cases h
  | derive => exact id
  | _ => cases h

/-! ## Signatures -/

variable (S : Suite)

theorem readPoint_ne_error (he : e.Refusal) (v : Json) : Output.readPoint S v ≠ .error e := by
  unfold Output.readPoint
  split
  · unfold Suite.pointOfHex
    split
    · exact he.ne nofun
    · rename_i bs _
      cases S.decode bs with
      | ok q => nofun
      | error _ => exact he.ne nofun
  · exact he.ne nofun

/-- The wallet takes every signature for which there is a key. -/
theorem toProof_ne_error (he : e.Refusal) (hkey : ∀ id amount, e ≠ .wallet (.noKeyFor id amount))
    (o : Output) (s : BlindedSignature) (k : Keyset) : o.toProof S s k ≠ .error e := by
  have hhex : Output.factorHex o.factor ≠ .error e := by
    unfold Output.factorHex
    split
    · nofun
    · exact he.ne nofun
  unfold Output.toProof
  split
  · exact fun h => hkey _ _ (Except.error.inj h).symm
  refine Outcome.bind_ne_error (readPoint_ne_error S he _) fun signed => ?_
  refine Outcome.bind_ne_error (readPoint_ne_error S he _) fun key => ?_
  extract_lets c finish
  have hfinish (dleq : Option Dleq) : finish dleq ≠ .error e := by
    unfold finish
    split
    · exact he.ne nofun
    · exact Outcome.bind_ne_error (pointHex_ne_error he _) fun _ => nofun
  split
  · exact hfinish none
  · exact Outcome.bind_ne_error hhex fun _ => hfinish _

namespace Wallet

open Program

variable {S} {w : Wallet} {k : Keyset}

/-- What is wrong with a signature is wrong with the mint. -/
theorem validation_ne_noKey (he : e.Validation) (id : Json) (amount : Int) :
    e ≠ .wallet (.noKeyFor id amount) := by
  rintro rfl
  cases he

theorem toProofs_ne_error (he : e.Refusal) (hkey : ∀ id amount, e ≠ .wallet (.noKeyFor id amount))
    (outputs : List Output) (signatures : List BlindedSignature) :
    toProofs S k outputs signatures ≠ .error e :=
  Outcome.mapM_ne_error (fun _ => toProof_ne_error S he hkey _ _ _) _

theorem unpack_ne_error (he : e.Validation) (t : Swap) (signatures : List BlindedSignature) :
    t.unpack S signatures k ≠ .error e := by
  have hunblind (order : List Nat) (signatures : List BlindedSignature) :
      Swap.unblind S k t.outputs order signatures ≠ .error e := by
    fun_induction Swap.unblind S k t.outputs order signatures with
    | case1 i order s signatures hnone ih => exact ih
    | case2 i order s signatures o ho ih =>
      exact Outcome.bind_ne_error (toProof_ne_error S he.refusal (validation_ne_noKey he) _ _ _) fun _ =>
        Outcome.bind_ne_error ih fun _ => nofun
    | case3 => nofun
  unfold Swap.unpack
  split
  · exact he.ne nofun
  · exact Outcome.bind_ne_error (hunblind _ _) fun _ => nofun

theorem swap_avoids (he : e.Validation) (inputs : List Proof) (keep send : List Output) :
    (swap S k inputs keep send).Avoids e :=
  (avoids_counted _).bind fun _ => avoids_lift (unpack_ne_error he _ _)

theorem completeMelt_avoids (he : e.Validation) (b : MeltBlanks) : (completeMelt S b).Avoids e := by
  refine (avoids_counted _).bind fun response => ?_
  split
  · exact avoids_asked.bind fun _ => avoids_lift (he.ne nofun)
  · exact (avoids_lift (toProofs_ne_error he.refusal (validation_ne_noKey he) _ _)).bind fun _ => avoids_pure _

/-! ## Operations -/

theorem newOutputs_careful (he : e.Validation) {amount : Int} (ha : 0 ≤ amount) (o : NewProofs) :
    (w.newOutputs S k amount o).Careful e := by
  refine careful_lift_bind fun _ hs => (Plan.finish_avoids he.refusal.not_unblindable ?_ _).careful
  exact Plan.buildable_of_configure (.inl ha) hs

-- Otherwise unfolding evaluates the comparison of two addresses.
attribute [local irreducible] sanitizeUrl

theorem receive_careful (he : e.Validation) (t : Token) (o : NewProofs) :
    (w.receive S t o).Careful e := by
  unfold receive
  split
  · exact careful_fail _
  split
  · exact careful_fail _
  split
  · exact careful_pure _
  refine careful_lift_bind fun k _ => careful_lift_bind fun fee _ => ?_
  dsimp only
  split
  · exact careful_fail _
  rename_i hnet
  refine (newOutputs_careful he (Int.not_le.mp hnet).le o).bind fun outputs => ?_
  exact (swap_avoids he _ _ _).bind fun _ => avoids_pure _

theorem mint_careful (he : e.Validation) (amount : Int) (quote : Json) (o : NewProofs) :
    (w.mint S amount quote o).Careful e := by
  unfold mint
  split
  · exact careful_fail _
  rename_i hamount
  refine careful_lift_bind fun k _ => ?_
  refine (newOutputs_careful he (Int.not_le.mp hamount).le o).bind fun outputs => ?_
  refine (avoids_counted _).bind fun signatures => ?_
  split
  · exact avoids_asked.bind fun _ => avoids_lift (he.ne nofun)
  · exact avoids_lift (toProofs_ne_error he.refusal (validation_ne_noKey he) _ _)

theorem melt_careful (he : e.Validation) (quote : MeltQuote) (proofs : List Proof) (o : MeltOptions) :
    (w.melt S quote proofs o).Careful e := by
  unfold melt
  refine careful_lift_bind fun k _ => ?_
  dsimp only
  split
  · refine (Plan.blanks_careful he _ _ _).bind fun outputs => ?_
    exact (avoids_announce ..).bind fun _ => completeMelt_avoids he _
  · refine (careful_pure _).bind fun outputs => ?_
    exact (avoids_announce ..).bind fun _ => completeMelt_avoids he _

/-- Parts may have to be found for a negative amount only if fees are added to it;
without them nothing is selected. -/
theorem sendBySwap_careful (he : e.Validation) {amount : Int} (proofs : List Proof) {o : SendOptions}
    (ha : 0 ≤ amount ∨ o.includeFees = false ∨ (o.sendPolicy.getD w.defaultPolicy).isOpen = false) :
    (w.sendBySwap S amount proofs o).Careful e := by
  unfold sendBySwap
  refine careful_lift_bind fun k _ => careful_lift_bind fun target htarget => ?_
  refine careful_bind ((Selection.only_select ..).mono fun _ => Command.Quiet.not_commits)
    fun tr selected hselected => ?_
  split
  · exact careful_fail _
  rename_i hsend
  refine careful_lift_bind fun fee _ => ?_
  dsimp only
  split
  · exact careful_fail _
  rename_i hchange
  refine careful_lift_bind fun rest hrest => ?_
  -- nothing is selected for a target that is not positive
  have hpos : 0 < target.amount := by
    obtain rfl | ⟨hpos, -⟩ := Selection.select_inv hselected
    · exact absurd rfl hsend
    · exact hpos
  have hsplit : 0 ≤ amount ∨ (o.sendPolicy.getD w.defaultPolicy).isOpen = false := by
    rcases ha with ha | hfees | hopen
    · exact .inl ha
    · have hexact : target.amount = amount := (Plan.configure_spec htarget).exact hfees
      exact .inl (hexact ▸ hpos.le)
    · exact .inr hopen
  have htarget := Plan.buildable_of_configure hsplit htarget
  have hrest := Plan.buildable_of_configure (.inl (Int.not_lt.mp hchange)) hrest
  have hall : ∀ s ∈ [target, rest], s.Buildable w.seeded := by simp [htarget, hrest]
  refine ((Plan.assign_avoids ..).bind_of_yields fun tr r hr => ?_).careful
  refine (Plan.groups_avoid he.refusal.not_unblindable hall hr).bind fun outputs => ?_
  exact (swap_avoids he _ _ _).bind fun _ => avoids_pure _

theorem send_careful (he : e.Validation) {amount : Int} (proofs : List Proof) {o : SendOptions}
    (ha : 0 ≤ amount ∨ o.includeFees = false ∨ (o.sendPolicy.getD w.defaultPolicy).isOpen = false) :
    (w.send S amount proofs o).Careful e := by
  refine careful_bind ((only_trySendOffline ..).mono fun _ => Command.Quiet.not_commits)
    fun tr found _ => ?_
  split
  · exact careful_pure _
  · exact sendBySwap_careful he proofs ha

theorem plan_careful (he : e.Validation) (settings : Settings.Output) (seeded : Bool)
    (r : Plan.Request) (own : Option Listener) : (Plan.plan S settings seeded k r own).Careful e := by
  unfold Plan.plan
  split
  · exact (avoids_asked.bind fun _ => avoids_pure _).careful
  · rename_i hamount
    refine careful_lift_bind fun s hs => (Plan.finish_avoids he.refusal.not_unblindable ?_ own).careful
    exact Plan.buildable_of_configure (.inl (Int.not_le.mp hamount).le) hs

theorem batchRestore_careful (gapLimit batchSize : Option Int) (counter : Int) (id : Json) :
    (w.batchRestore S gapLimit batchSize counter id).Careful e := by
  have hskip (keyset : Json) (last : Int) : (skipRestored keyset last).Avoids e := by
    refine Ends.bind (Ends.attempt fun r hr => ?_)
    cases r with
    | ok _ => exact avoids_pure ()
    | error e' =>
      change (if e'.ofKind [.capability] then Program.warn (.cannotAdvance keyset last)
        else Program.ofOutcome (.error e') : Program Unit).Avoids e
      split
      · exact avoids_asked
      · exact avoids_lift (Outcome.ne_error_of_failure? hr)
  refine careful_lift_bind fun required _ => careful_lift_bind fun k _ => ?_
  refine careful_bind ((only_scan ..).mono fun _ => Command.Restoring.not_commits) fun tr found _ => ?_
  split
  · exact careful_pure _
  · exact ((hskip k.id _).bind fun _ => avoids_pure _).careful

/-- A send with fees of a negative amount, in denominations of the wallet's choice. -/
def Operation.Unsplittable (w : Wallet) : Operation → Prop
  | send amount _ o =>
    amount < 0 ∧ o.includeFees = true ∧ (o.sendPolicy.getD w.defaultPolicy).isOpen = true
  | _ => False

theorem operation_careful (he : e.Validation) {op : Operation} (hop : ¬ op.Unsplittable w) :
    (op.program S w).Careful e := by
  unfold Operation.program
  cases op with
  | send amount proofs o =>
    refine (send_careful he proofs ?_).discard
    simp only [Operation.Unsplittable, not_and_or] at hop
    simpa using hop
  | receive token o => exact (receive_careful he token o).discard
  | mint amount quote o => exact (mint_careful he amount quote o).discard
  | melt quote proofs o => exact (melt_careful he quote proofs o).discard
  | plan k r own => exact (plan_careful he ..).discard
  | blanks k policy count own => exact (Plan.blanks_careful he ..).discard
  | batchRestore gapLimit batchSize counter keyset => exact (batchRestore_careful ..).discard

/-- Whatever state the wallet and the world are in, and whatever the world answers, as long as
neither a derivation nor the mint fails in the way in which the wallet refuses: an operation
that ends with a refusal of what was asked for has been answered with that refusal by a
factory or a source of the caller's, or else it has left no trace. It has not reserved or
moved a counter, and the cursors are as they were; it has counted no reservation, told no
listener, and had nothing swapped, issued or paid. -/
theorem refusal_without_trace {σ γ : Type} (handle : (c : Command) → σ → c.Answer × σ) (s : σ)
    (cursors : σ → γ) (hcursors : ∀ c s, ¬ c.Commits → cursors (handle c s).2 = cursors s) (S : Suite)
    (w : Wallet) {op : Operation} (hop : ¬ op.Unsplittable w) (he : e.Validation)
    (hothers : ∀ x ∈ (op.program S w).history handle s, ¬ x.command.Brought → x.failure? ≠ some e)
    (h : ((op.program S w).run handle s).1 = .error e) :
    (∃ x ∈ (op.program S w).history handle s, x.command.Brought ∧ x.failure? = some e) ∨
      cursors ((op.program S w).run handle s).2 = cursors s ∧
        ∀ x ∈ (op.program S w).history handle s, ¬ x.command.Commits := by
  obtain ⟨x, hx, hanswered⟩ | hnone := (operation_careful he hop).run h
  · exact .inl ⟨x, hx, of_not_not fun hbrought => hothers x hx hbrought hanswered, hanswered⟩
  · exact .inr ⟨run_view hcursors hnone, hnone⟩

theorem handle_cursors (S : Suite) (c : Command) (world : World) (hc : ¬ c.Commits) :
    (World.handle S c world).2.cursors = world.cursors := by
  cases c with
  | reserve | advance => exact absurd trivial hc
  | _ => rfl

/-- A wallet with a seed and one keyset. -/
def seededWallet (k : Keyset) : Wallet where
  settings := { onesWallet.settings with secretsPolicy := .deterministic }
  chain := ⟨.str "sat", [k]⟩
  seeded := true

/-- The counters of the keyset up to four have been used, and there is a listener. -/
def usedWorld : World :=
  { World.fresh (some [7]) (.fresh []) with cursors := [(.str "00", 5)], scribes := [⟨"own", false⟩] }

/-- A unit is to be sent, and there is a proof of one, which pays for nothing but its own
fee. The send is refused, and no counter is reserved. -/
theorem refusal_without_trace_ones :
    let p := (Operation.send 1 (onesProofs.take 1) ⟨⟨.null, some 0⟩, false, none, none⟩).program
      oneElement (seededWallet ones)
    (p.run (World.handle oneElement) usedWorld).1 = .error (.wallet .notEnoughFunds) ∧
      (p.run (World.handle oneElement) usedWorld).2.cursors = usedWorld.cursors ∧
      ∀ x ∈ p.history (World.handle oneElement) usedWorld, ¬ x.command.Commits := by
  intro p
  have hop : ¬ (Operation.send 1 (onesProofs.take 1) ⟨⟨.null, some 0⟩, false, none, none⟩).Unsplittable
      (seededWallet ones) := fun h => absurd h.1 (by decide)
  have he : (Failure.wallet .notEnoughFunds).Validation := rfl
  have hr : (p.run (World.handle oneElement) usedWorld).1 = .error (.wallet .notEnoughFunds) := by
    decide +kernel
  have hown : ¬ ∃ x ∈ p.history (World.handle oneElement) usedWorld,
      x.failure? = some (.wallet .notEnoughFunds) := by decide +kernel
  have hleft := refusal_without_trace (World.handle oneElement) usedWorld World.cursors
    (handle_cursors oneElement) oneElement (seededWallet ones) hop he
    (fun x hx _ hanswered => hown ⟨x, hx, hanswered⟩) hr
  exact ⟨hr, hleft.resolve_left fun ⟨x, hx, _, hanswered⟩ => hown ⟨x, hx, hanswered⟩⟩

/-- Keys for one and for two; an input costs a unit. -/
def oneAndTwo : Keyset :=
  ⟨.str "00", .str "sat", .bool true, 1000, .null, [(1, .str ""), (2, .str "")]⟩

/-- Minus one is split like one. -/
theorem oneAndTwo_splits : Amount.canonical (-1) oneAndTwo.amounts = .ok [1] ∧
    Amount.canonical 1 oneAndTwo.amounts = .ok [1] ∧
    Amount.canonical 2 oneAndTwo.amounts = .ok [2] := by
  have hamounts : oneAndTwo.amounts = [1, 2] := by simp [Keyset.amounts, oneAndTwo, List.mergeSort]
  have hdescending : Amount.descending [1, 2] = [2, 1] := by simp [Amount.descending, List.mergeSort]
  simp only [hamounts, Amount.canonical, Amount.split, hdescending]
  decide +kernel

/-- With the fee for two parts, a target of one in parts that add up to three. -/
theorem oneAndTwo_target : Plan.configure .standard true oneAndTwo ⟨-1, .deterministic 0 [], true, []⟩ =
    .ok ⟨1, .deterministic 0 [], [1, 2], none⟩ := by
  obtain ⟨hminus, hone, htwo⟩ := oneAndTwo_splits
  have hraise (rounds : Nat) : Plan.raiseFee oneAndTwo.amounts 1000 1 (rounds + 1) 1 = .ok [2] := by
    cases rounds <;> simp only [Plan.raiseFee, hone, htwo, Int.reduceAdd] <;> rfl
  have hfee : Plan.feeParts oneAndTwo 1000 1 = .ok [2] := hraise 999
  have hparts : Plan.denominations oneAndTwo 3 (-1) [] [] = .ok [1] := hminus
  exact Outcome.bind_ok_iff.mpr ⟨(), rfl, Outcome.bind_ok_iff.mpr ⟨[1], hparts,
    Outcome.bind_ok_iff.mpr ⟨[2], hfee, rfl⟩⟩⟩

/-- Minus one is to be sent with fees, out of a proof of two. Only when counters for the
parts of the target are reserved, and the listener has been told, are these parts found
not to add up to it. -/
theorem negative_send_reserves :
    let two : Proof := ⟨.str "00", 2, .str "a", .null, none, .null, none⟩
    let o : SendOptions := ⟨⟨.null, some 0⟩, true, none, none⟩
    let r := ((seededWallet oneAndTwo).send oneElement (-1) [two] o).run (World.handle oneElement) usedWorld
    let e : Failure := .wallet (.denominationsDiffer 3 1)
    r.1 = .error e ∧ e.Validation ∧ r.2.cursors = [(.str "00", 7)] ∧
      r.2.notes = [("own", .reserved ⟨.str "00", ⟨5, 2⟩⟩)] := by
  intro two o r e
  let w := seededWallet oneAndTwo
  let target : OutputSpec := ⟨1, .deterministic 0 [], [1, 2], none⟩
  let rest : OutputSpec := ⟨0, .deterministic 0 [], [], none⟩
  have hkeyset : w.keyset .null = .ok oneAndTwo := by decide +kernel
  have htarget : w.configure oneAndTwo
      ⟨-1, o.sendPolicy.getD w.defaultPolicy, o.includeFees, []⟩ = .ok target := oneAndTwo_target
  have hrest : w.configure oneAndTwo ⟨0, .deterministic 0 [], false, []⟩ = .ok rest :=
    Outcome.bind_ok_iff.mpr ⟨(), rfl, Outcome.bind_ok_iff.mpr ⟨[], Amount.canonical_zero _, rfl⟩⟩
  have hselect : ((w.select ⟨target.amount, true, false⟩ [two]).run (World.handle oneElement)
      usedWorld).1 = .ok ⟨[], [two]⟩ := by decide +kernel
  have hfee : w.feeForProofs [two] = .ok 1 := by decide +kernel
  have hr : r = (do
      let assigned ← Plan.assign oneAndTwo.id [target, rest] (some 0)
      let outputs ← assigned.1.mapM (Plan.build oneElement true oneAndTwo)
      let swapped ← swap oneElement oneAndTwo [two] outputs.tail.flatten (outputs.headD [])
      return ⟨swapped.keep ++ [], swapped.send⟩ : Program Partition).run (World.handle oneElement)
        ((w.select ⟨target.amount, true, false⟩ [two]).run (World.handle oneElement) usedWorld).2 := by
    change (w.sendBySwap oneElement (-1) [two] o).run (World.handle oneElement) usedWorld = _
    unfold sendBySwap
    rw [run_lift_bind hkeyset, run_lift_bind htarget, run_bind_ok hselect]
    refine (run_lift_bind hfee).trans ?_
    refine (run_lift_bind hrest).trans ?_
    rfl
  rw [hr]
  exact ⟨by decide +kernel, rfl, by decide +kernel, by decide +kernel⟩

end Wallet

end Ecash
