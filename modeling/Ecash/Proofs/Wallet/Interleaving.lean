import Ecash.Proofs.Wallet.Operations
import Ecash.World

/-!
# No index is handed out twice

Operations run side by side on one engine. Wherever one of them asks for
something, others may go on first, and each may end at any point. Every task
holds the indices that it was granted and has not used. These, and those that
have been used, are apart and below the cursors (`Inv`); a step keeps it that
way (`step_inv`), and so does a run (`run_inv`).
-/
namespace Ecash.Wallet

open Program
open scoped List

/-! ## Engines -/

/-- The cursors in memory, and what is left to do of each operation under way. -/
structure Engine where
  cursors : Cursors
  tasks : List (Program Unit)

/-- The source in memory answers for its cursors. Nothing else moves them, and the
rest of the world answers as it likes. -/
def Answers (cs : Cursors) : Exchange → Cursors → Prop
  | ⟨.reserve k n, r⟩, cs' => CounterSource.inMemory.reserve k n cs = (r, cs')
  | ⟨.advance k least, r⟩, cs' => CounterSource.inMemory.advance k least cs = (r, cs')
  | _, cs' => cs' = cs

/-- What can happen next, and what is asked and answered by it. -/
inductive Step (S : Suite) : Engine → List Exchange → Engine → Prop where
  /-- An operation begins, on the wallet as it is by then. -/
  | start (cs : Cursors) (ts : List (Program Unit)) (w : Wallet) (op : Operation) :
    Step S ⟨cs, ts⟩ [] ⟨cs, op.program S w :: ts⟩
  /-- A task asks, and goes on with the answer. -/
  | ask {cs cs' : Cursors} (before : List (Program Unit)) {after : List (Program Unit)} {c : Command}
    {next : c.Answer → Program Unit} (a : c.Answer) (h : Answers cs ⟨c, a⟩ cs') :
    Step S ⟨cs, before ++ .ask c next :: after⟩ [⟨c, a⟩] ⟨cs', before ++ next a :: after⟩
  /-- A task ends, having come to its end or not. -/
  | stop {cs : Cursors} (before : List (Program Unit)) {p : Program Unit}
    {after : List (Program Unit)} : Step S ⟨cs, before ++ p :: after⟩ [] ⟨cs, before ++ after⟩

/-- One thing after another. -/
inductive Run (S : Suite) : Engine → List Exchange → Engine → Prop where
  | refl (e : Engine) : Run S e [] e
  | tail {e e' e'' : Engine} {tr x : List Exchange} (h : Run S e tr e') (hs : Step S e' x e'') :
    Run S e (tr ++ x) e''

variable {S : Suite} {e e' : Engine} {tr : List Exchange} {spent : List Index}

theorem fresh_of_answers {cs cs' : Cursors} {x : Exchange} (h : Answers cs x cs') :
    Fresh x.granted cs cs' := by
  obtain ⟨c, a⟩ := x
  cases c with
  | reserve k n =>
    have hcs : cs' = (cs.reserve k n).2 := (congrArg Prod.snd h).symm
    have ha : (cs.reserve k n).1 = a := congrArg Prod.fst h
    subst hcs
    have hforward := Cursors.next_le_next_reserve k n cs
    cases a with
    | ok b =>
      obtain ⟨hstart, hend⟩ := Cursors.reserve_spec ha
      refine ⟨hforward, indices_apart .., ?_⟩
      rintro ⟨k', i⟩ hx
      obtain ⟨rfl, hle, hlt⟩ := mem_indices hx
      exact ⟨hstart ▸ hle, hend ▸ hlt⟩
    | error e => exact .nil hforward
  | advance k least =>
    have hcs : cs' = cs.advance k least := (congrArg Prod.snd h).symm
    exact .nil (hcs ▸ Cursors.next_le_next_advance k least cs)
  | _ =>
    have hcs : cs' = cs := h
    exact .nil fun k => hcs ▸ Int.le_refl _

/-! ## Invariant -/

/-- Every task gets by with indices of its own, and nobody has or had the same. -/
def Inv (e : Engine) (spent : List Index) : Prop :=
  ∃ owns, List.Forall₂ (fun p own => p.Frugal own fun _ _ => True) e.tasks owns ∧
    Claimed (spent ++ owns.flatten) e.cursors

theorem inv_init (cs : Cursors) : Inv ⟨cs, []⟩ [] := ⟨[], .nil, .nil cs⟩

theorem forall₂_split {α β : Type} {R : α → β → Prop} {xs : List α} {x : α} {xs' : List α}
    {ys : List β} (h : List.Forall₂ R (xs ++ x :: xs') ys) :
    ∃ zs z zs', ys = zs ++ z :: zs' ∧ List.Forall₂ R xs zs ∧ R x z ∧ List.Forall₂ R xs' zs' := by
  induction xs generalizing ys with
  | nil =>
    cases h with
    | cons hx h => exact ⟨[], _, _, rfl, .nil, hx, h⟩
  | cons y xs ih =>
    cases h with
    | cons hy h =>
      obtain ⟨zs, z, zs', rfl, hzs, hz, hzs'⟩ := ih h
      exact ⟨_ :: zs, z, zs', rfl, .cons hy hzs, hz, hzs'⟩

/-- A task that uses some of its indices, and is granted others, has the rest. -/
theorem exchange_subperm {own left granted fresh : List Index} (before after : List (List Index))
    (h : fresh ++ left <+~ own ++ granted) :
    spent ++ fresh ++ (before ++ left :: after).flatten <+~
      spent ++ (before ++ own :: after).flatten ++ granted := by
  have h₁ : spent ++ fresh ++ (before ++ left :: after).flatten ~
      (spent ++ before.flatten ++ after.flatten) ++ (fresh ++ left) := by
    rw [List.perm_iff_count]
    intro x
    simp only [List.flatten_append, List.flatten_cons, List.count_append]
    omega
  have h₂ : (spent ++ before.flatten ++ after.flatten) ++ (own ++ granted) ~
      spent ++ (before ++ own :: after).flatten ++ granted := by
    rw [List.perm_iff_count]
    intro x
    simp only [List.flatten_append, List.flatten_cons, List.count_append]
    omega
  exact h₁.subperm.trans (((List.subperm_append_left _).mpr h).trans h₂.subperm)

theorem step_inv {x : List Exchange} (h : Inv e spent) (hs : Step S e x e') :
    Inv e' (spent ++ used x) := by
  obtain ⟨owns, htasks, hclaimed⟩ := h
  cases hs with
  | start cs ts w op =>
    refine ⟨[] :: owns, .cons (frugal_operation S w op) htasks, ?_⟩
    simpa using hclaimed
  | ask before a ha =>
    obtain ⟨owns, own, owns', rfl, hbefore, hp, hafter⟩ := forall₂_split htasks
    cases hp with
    | ask left hleft hnext =>
      refine ⟨owns ++ left a :: owns', List.rel_append hbefore (.cons (hnext a) hafter), ?_⟩
      rw [used_singleton]
      exact (hclaimed.append (fresh_of_answers ha)).of_subperm (exchange_subperm owns owns' (hleft a))
  | stop before =>
    obtain ⟨owns, own, owns', rfl, hbefore, -, hafter⟩ := forall₂_split htasks
    refine ⟨owns ++ owns', List.rel_append hbefore hafter, hclaimed.of_subperm ?_⟩
    rw [used_nil, List.append_nil, List.flatten_append, List.flatten_append, List.flatten_cons]
    exact (((List.sublist_append_right ..).append_left _).append_left _).subperm

theorem run_inv (h : Inv e spent) (hr : Run S e tr e') : Inv e' (spent ++ used tr) := by
  induction hr with
  | refl => simpa using h
  | tail _ hs ih =>
    rw [used_append, ← List.append_assoc]
    exact step_inv ih hs

/-- No step moves a cursor back, whatever becomes of the operations. -/
theorem step_forward {x : List Exchange} (hs : Step S e x e') (k : Json) :
    e.cursors.next k ≤ e'.cursors.next k := by
  cases hs with
  | start cs ts w op => exact Int.le_refl _
  | ask before a ha => exact (fresh_of_answers ha).forward k
  | stop before => exact Int.le_refl _

theorem run_forward (hr : Run S e tr e') (k : Json) : e.cursors.next k ≤ e'.cursors.next k := by
  induction hr with
  | refl => exact Int.le_refl _
  | tail _ hs ih => exact Int.le_trans ih (step_forward hs k)

/-! ## Runs -/

theorem Run.trans {e₁ e₂ e₃ : Engine} {tr₁ tr₂ : List Exchange} (h₁ : Run S e₁ tr₁ e₂)
    (h₂ : Run S e₂ tr₂ e₃) : Run S e₁ (tr₁ ++ tr₂) e₃ := by
  induction h₂ with
  | refl => rwa [List.append_nil]
  | tail _ hs ih =>
    rw [← List.append_assoc]
    exact .tail ih hs

/-- The reproducible world, with its counters in memory, answers as engines are
answered. -/
theorem answers_handle (S : Suite) (c : Command) {w : World} (hw : w.source = .inMemory) :
    Answers w.cursors ⟨c, (World.handle S c w).1⟩ (World.handle S c w).2.cursors ∧
      (World.handle S c w).2.source = .inMemory := by
  cases c with
  | reserve k n =>
    refine ⟨?_, hw⟩
    change CounterSource.inMemory.reserve k n w.cursors = w.source.reserve k n w.cursors
    rw [hw]
  | advance k least =>
    refine ⟨?_, hw⟩
    change CounterSource.inMemory.advance k least w.cursors = w.source.advance k least w.cursors
    rw [hw]
  | _ => exact ⟨rfl, hw⟩

/-- The tasks take turns as the schedule says; the world answers. -/
def turns (S : Suite) : (schedule : List Nat) → World → List (Program Unit) →
    List Exchange × World × List (Program Unit)
  | [], w, ts => ([], w, ts)
  | i :: schedule, w, ts =>
    match ts[i]? with
    | some (.ask c next) =>
      let (a, w) := World.handle S c w
      let (tr, w, ts) := turns S schedule w (ts.set i (next a))
      (⟨c, a⟩ :: tr, w, ts)
    | _ => turns S schedule w ts

theorem run_turns (schedule : List Nat) {w : World} (ts : List (Program Unit))
    (hw : w.source = .inMemory) :
    Run S ⟨w.cursors, ts⟩ (turns S schedule w ts).1
      ⟨(turns S schedule w ts).2.1.cursors, (turns S schedule w ts).2.2⟩ := by
  induction schedule generalizing w ts with
  | nil => exact .refl _
  | cons i schedule ih =>
    unfold turns
    split
    · rename_i c next hi
      obtain ⟨ha, hw'⟩ := answers_handle S c hw
      obtain ⟨hlt, hget⟩ := List.getElem?_eq_some_iff.mp hi
      have hsplit : ts = ts.take i ++ .ask c next :: ts.drop (i + 1) := by
        rw [← hget, List.getElem_cons_drop, List.take_append_drop]
      have hset : ts.set i (next (World.handle S c w).1) =
          ts.take i ++ next (World.handle S c w).1 :: ts.drop (i + 1) :=
        List.set_eq_take_cons_drop _ hlt
      have hstep : Step S ⟨w.cursors, ts⟩ [⟨c, (World.handle S c w).1⟩]
          ⟨(World.handle S c w).2.cursors, ts.set i (next (World.handle S c w).1)⟩ := by
        rw [hset]
        nth_rewrite 1 [hsplit]
        exact .ask _ _ ha
      exact ((Run.refl _).tail hstep).trans (ih _ hw')
    · exact ih ts hw

/-- However operations are interleaved and wherever they end: no two outputs are
made from one reserved index, no cursor ever moves back, and an index that has
been used stays below the cursor of its keyset. -/
theorem indices_unique {cs : Cursors} {e₁ e₂ : Engine} {tr₁ tr₂ : List Exchange}
    (h₁ : Run S ⟨cs, []⟩ tr₁ e₁) (h₂ : Run S e₁ tr₂ e₂) :
    (used (tr₁ ++ tr₂)).Pairwise Apart ∧ (∀ k, e₁.cursors.next k ≤ e₂.cursors.next k) ∧
      ∀ x ∈ used tr₁, x.2 < e₂.cursors.next x.1 := by
  obtain ⟨owns, -, hclaimed⟩ := run_inv (inv_init cs) (h₁.trans h₂)
  rw [List.nil_append] at hclaimed
  have hused : Claimed (used (tr₁ ++ tr₂)) e₂.cursors :=
    hclaimed.of_subperm (List.sublist_append_left ..).subperm
  refine ⟨hused.apart, run_forward h₂, fun x hx => hused.below x ?_⟩
  rw [used_append]
  exact List.mem_append_left _ hx

/-- A blank for which a counter is reserved. -/
def oneBlank : Operation :=
  .blanks ⟨.str "00", .str "sat", .bool true, 0, .null, []⟩ (.deterministic 0 []) 1 none

def deterministicWallet : Wallet where
  settings :=
    ⟨false, "sat", "", .deterministic, "", ⟨"", 0, ""⟩, .standard, .standard, ⟨1, 1⟩, ⟨false⟩⟩
  chain := ⟨.str "sat", []⟩
  seeded := true

/-- Two blanks are made in turns. The counter that is reserved last is used first. -/
theorem indices_unique_two_blanks :
    let task := oneBlank.program .secp256k1 deterministicWallet
    let world := { World.fresh (some [7]) (.fresh []) with cursors := [(.str "00", 5)] }
    let schedule := [0, 1, 0, 1, 0, 1, 1, 0]
    let r := turns .secp256k1 schedule world [task, task]
    used r.1 = [(.str "00", 6), (.str "00", 5)] ∧ (used r.1).Pairwise Apart ∧
      ∀ x ∈ used r.1, x.2 < r.2.1.cursors.next x.1 := by
  intro task world schedule r
  have hused : used r.1 = [(.str "00", 6), (.str "00", 5)] := by decide +kernel
  have hbegun : Run .secp256k1 ⟨world.cursors, []⟩ _ ⟨world.cursors, [task, task]⟩ :=
    ((Run.refl _).tail (.start ..)).tail (.start ..)
  have hrun : Run .secp256k1 ⟨world.cursors, []⟩ r.1 ⟨r.2.1.cursors, r.2.2⟩ :=
    hbegun.trans (@run_turns _ schedule world _ rfl)
  obtain ⟨hapart, -, hbelow⟩ := indices_unique hrun (Run.refl _)
  rw [List.append_nil] at hapart
  exact ⟨hused, hapart, hbelow⟩

end Ecash.Wallet
