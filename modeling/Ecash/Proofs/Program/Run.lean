import Ecash.Program
import Mathlib.Data.List.Forall2

/-!
# Runs of a program

What a program asks and is answered in a run is its `history`. `Yields` says
the same without a handler: `p.Yields tr r` holds when `p`, answered as in `tr`,
ends with `r`. `yields_run` connects the two, and `yields_bind_ok` takes a run
apart along the program. `Only P p` says which commands `p` can ask at all,
whatever it is answered.
-/
namespace Ecash

/-- A command and its answer. -/
structure Exchange where
  command : Command
  answer : command.Answer

namespace Program

variable {α β : Type}

instance : LawfulMonad Program := by
  refine LawfulMonad.mk' Program ?_ ?_ ?_
  · intro α p
    change p.andThen (fun a => .done (.ok a)) = p
    induction p with
    | done r => cases r <;> rfl
    | ask c next ih => simp only [andThen, ih]
  · intro α β a f
    rfl
  · intro α β γ p f g
    change (p.andThen f).andThen g = p.andThen fun a => (f a).andThen g
    induction p with
    | done r => cases r <;> rfl
    | ask c next ih => simp only [andThen, ih]

instance : LawfulMonadLift Outcome Program where
  monadLift_pure _ := rfl
  monadLift_bind x _ := by cases x <;> rfl

/-- What is asked and answered in the run of `p` from `s` on. -/
def history {σ : Type} (handle : (c : Command) → σ → c.Answer × σ) : Program α → σ → List Exchange
  | .done _, _ => []
  | .ask c next, s =>
    let (a, s) := handle c s
    ⟨c, a⟩ :: (next a).history handle s

/-- Answered as in the list, the program ends with the outcome. -/
inductive Yields : Program α → List Exchange → Outcome α → Prop where
  | done (r : Outcome α) : Yields (.done r) [] r
  | ask {c : Command} {next : c.Answer → Program α} {a : c.Answer} {tr : List Exchange}
      {r : Outcome α} (h : Yields (next a) tr r) : Yields (.ask c next) (⟨c, a⟩ :: tr) r

theorem yields_run {σ : Type} (handle : (c : Command) → σ → c.Answer × σ) (p : Program α) (s : σ) :
    p.Yields (p.history handle s) (p.run handle s).1 := by
  induction p generalizing s with
  | done r => exact .done r
  | ask c next ih => exact .ask (ih _ _)

/-- After a good end of the first program, the second one runs on. -/
theorem run_bind_ok {σ : Type} {handle : (c : Command) → σ → c.Answer × σ} {p : Program α}
    {f : α → Program β} {s : σ} {a : α} (h : (p.run handle s).1 = .ok a) :
    (p >>= f).run handle s = (f a).run handle (p.run handle s).2 := by
  change (p.andThen f).run handle s = _
  induction p generalizing s with
  | done r =>
    cases r with
    | ok b =>
      cases h
      rfl
    | error e => cases h
  | ask c next ih => exact ih _ h

/-- After a bad end there is nothing more to run. -/
theorem run_bind_error {σ : Type} {handle : (c : Command) → σ → c.Answer × σ} {p : Program α}
    {f : α → Program β} {s : σ} {e : Failure} (h : (p.run handle s).1 = .error e) :
    (p >>= f).run handle s = (.error e, (p.run handle s).2) := by
  change (p.andThen f).run handle s = _
  induction p generalizing s with
  | done r =>
    cases r with
    | ok b => cases h
    | error e' =>
      cases h
      rfl
  | ask c next ih => exact ih _ h

/-- What the second program asks comes after what the first one has asked. -/
theorem history_bind_ok {σ : Type} {handle : (c : Command) → σ → c.Answer × σ} {p : Program α}
    {f : α → Program β} {s : σ} {a : α} (h : (p.run handle s).1 = .ok a) :
    (p >>= f).history handle s = p.history handle s ++ (f a).history handle (p.run handle s).2 := by
  change (p.andThen f).history handle s = _
  induction p generalizing s with
  | done r =>
    cases r with
    | ok b =>
      cases h
      rfl
    | error e => cases h
  | ask c next ih => exact congrArg (List.cons _) (ih _ h)

theorem history_bind_error {σ : Type} {handle : (c : Command) → σ → c.Answer × σ} {p : Program α}
    {f : α → Program β} {s : σ} {e : Failure} (h : (p.run handle s).1 = .error e) :
    (p >>= f).history handle s = p.history handle s := by
  change (p.andThen f).history handle s = _
  induction p generalizing s with
  | done r =>
    cases r with
    | ok b => cases h
    | error e' => rfl
  | ask c next ih => exact congrArg (List.cons _) (ih _ h)

/-- What a program ends with may be a result; its run stays the same. -/
theorem run_attempt {σ : Type} {handle : (c : Command) → σ → c.Answer × σ} (p : Program α) (s : σ) :
    p.attempt.run handle s = (.ok (p.run handle s).1, (p.run handle s).2) ∧
      p.attempt.history handle s = p.history handle s := by
  induction p generalizing s with
  | done r => exact ⟨rfl, rfl⟩
  | ask c next ih => exact ⟨(ih _ _).1, congrArg (List.cons _) (ih _ _).2⟩

theorem run_lift_bind {σ : Type} {handle : (c : Command) → σ → c.Answer × σ} {r : Outcome α}
    {f : α → Program β} {s : σ} {a : α} (h : r = .ok a) :
    ((liftM r : Program α) >>= f).run handle s = (f a).run handle s :=
  run_bind_ok h

/-! ## Taking runs apart -/

@[simp]
theorem yields_done {r r' : Outcome α} {tr : List Exchange} :
    (Program.done r).Yields tr r' ↔ tr = [] ∧ r = r' := by
  constructor
  · intro h; cases h; exact ⟨rfl, rfl⟩
  · rintro ⟨rfl, rfl⟩; exact .done _

theorem yields_ask {c : Command} {next : c.Answer → Program α} {tr : List Exchange} {r : Outcome α} :
    (Program.ask c next).Yields tr r ↔ ∃ a tr', tr = ⟨c, a⟩ :: tr' ∧ (next a).Yields tr' r := by
  constructor
  · intro h; cases h with
    | ask h => exact ⟨_, _, rfl, h⟩
  · rintro ⟨a, tr', rfl, h⟩; exact .ask h

/-- A run of two programs in a row: the first one fails, or both run, one after the other. -/
theorem yields_bind {p : Program α} {f : α → Program β} {tr : List Exchange} {r : Outcome β} :
    (p >>= f).Yields tr r ↔ (∃ e, p.Yields tr (.error e) ∧ r = .error e) ∨
      ∃ a t₁ t₂, tr = t₁ ++ t₂ ∧ p.Yields t₁ (.ok a) ∧ (f a).Yields t₂ r := by
  change (p.andThen f).Yields tr r ↔ _
  induction p generalizing tr with
  | done r' =>
    cases r' with
    | ok a =>
      constructor
      · intro h; exact .inr ⟨a, [], tr, rfl, .done _, h⟩
      · rintro (⟨_, h, -⟩ | ⟨_, _, _, rfl, h₁, h₂⟩)
        · cases h
        · cases h₁; exact h₂
    | error e =>
      constructor
      · intro h; cases h; exact .inl ⟨e, .done _, rfl⟩
      · rintro (⟨_, h, rfl⟩ | ⟨_, _, _, -, h, -⟩)
        · cases h; exact .done _
        · cases h
  | ask c next ih =>
    simp only [andThen, yields_ask, ih]
    constructor
    · rintro ⟨x, t, rfl, ⟨e, h, rfl⟩ | ⟨a, t₁, t₂, rfl, h₁, h₂⟩⟩
      · exact .inl ⟨e, ⟨x, t, rfl, h⟩, rfl⟩
      · exact .inr ⟨a, ⟨c, x⟩ :: t₁, t₂, rfl, ⟨x, t₁, rfl, h₁⟩, h₂⟩
    · rintro (⟨e, ⟨x, t, rfl, h⟩, rfl⟩ | ⟨a, _, t₂, rfl, ⟨x, t₁, rfl, h₁⟩, h₂⟩)
      · exact ⟨x, t, rfl, .inl ⟨e, h, rfl⟩⟩
      · exact ⟨x, t₁ ++ t₂, rfl, .inr ⟨a, t₁, t₂, rfl, h₁, h₂⟩⟩

theorem yields_bind_ok {p : Program α} {f : α → Program β} {tr : List Exchange} {b : β} :
    (p >>= f).Yields tr (.ok b) ↔
      ∃ a t₁ t₂, tr = t₁ ++ t₂ ∧ p.Yields t₁ (.ok a) ∧ (f a).Yields t₂ (.ok b) := by
  simp [yields_bind]

theorem yields_attempt {p : Program α} {tr : List Exchange} {r : Outcome (Outcome α)} :
    p.attempt.Yields tr r ↔ ∃ r', r = .ok r' ∧ p.Yields tr r' := by
  induction p generalizing tr with
  | done r' =>
    simp only [attempt, yields_done]
    constructor
    · rintro ⟨rfl, rfl⟩; exact ⟨r', rfl, rfl, rfl⟩
    · rintro ⟨_, rfl, rfl, rfl⟩; exact ⟨rfl, rfl⟩
  | ask c next ih =>
    simp only [attempt, yields_ask, ih]
    constructor
    · rintro ⟨a, tr', rfl, r', rfl, h⟩
      exact ⟨r', rfl, a, tr', rfl, h⟩
    · rintro ⟨r', rfl, a, tr', rfl, h⟩
      exact ⟨a, tr', rfl, r', rfl, h⟩

@[simp]
theorem yields_pure_ok {a b : α} {tr : List Exchange} :
    (pure a : Program α).Yields tr (.ok b) ↔ tr = [] ∧ b = a := by
  change (Program.done (.ok a)).Yields tr (.ok b) ↔ _
  simp [eq_comm]

@[simp]
theorem yields_ofOutcome {r r' : Outcome α} {tr : List Exchange} :
    (ofOutcome r).Yields tr r' ↔ tr = [] ∧ r = r' := yields_done

@[simp]
theorem yields_lift {r r' : Outcome α} {tr : List Exchange} :
    (liftM r : Program α).Yields tr r' ↔ tr = [] ∧ r = r' := yields_done

theorem yields_lift_bind_ok {r : Outcome α} {f : α → Program β} {tr : List Exchange} {b : β} :
    ((liftM r : Program α) >>= f).Yields tr (.ok b) ↔ ∃ a, r = .ok a ∧ (f a).Yields tr (.ok b) := by
  rw [yields_bind_ok]
  constructor
  · rintro ⟨a, _, _, rfl, hr, h⟩
    obtain ⟨rfl, rfl⟩ := yields_lift.mp hr
    exact ⟨a, rfl, h⟩
  · rintro ⟨a, rfl, h⟩
    exact ⟨a, [], tr, rfl, yields_lift.mpr ⟨rfl, rfl⟩, h⟩

/-- A result that is only wrapped up does not change the run. -/
theorem yields_bind_pure {p : Program α} {f : α → β} {tr : List Exchange} {r : Outcome β} :
    (p >>= fun a => pure (f a)).Yields tr r ↔ ∃ r', p.Yields tr r' ∧ r = r'.map f := by
  rw [yields_bind]
  constructor
  · rintro (⟨e, h, rfl⟩ | ⟨a, t₁, t₂, rfl, ha, h⟩)
    · exact ⟨.error e, h, rfl⟩
    · obtain ⟨rfl, rfl⟩ := yields_done.mp h
      exact ⟨.ok a, (List.append_nil t₁).symm ▸ ha, rfl⟩
  · rintro ⟨r', h, rfl⟩
    cases r' with
    | error e => exact .inl ⟨e, h, rfl⟩
    | ok a => exact .inr ⟨a, tr, [], (List.append_nil tr).symm, h, .done _⟩

theorem yields_bind_pure_ok {p : Program α} {f : α → β} {tr : List Exchange} {b : β} :
    (p >>= fun a => pure (f a)).Yields tr (.ok b) ↔ ∃ a, p.Yields tr (.ok a) ∧ b = f a := by
  rw [yields_bind_pure]
  constructor
  · rintro ⟨r, h, hr⟩
    cases r with
    | error e => cases hr
    | ok a => exact ⟨a, h, Except.ok.inj hr⟩
  · rintro ⟨a, h, rfl⟩
    exact ⟨.ok a, h, rfl⟩

@[simp]
theorem not_yields_fail_ok {e : WalletError} {a : α} {tr : List Exchange} :
    ¬ (fail e : Program α).Yields tr (.ok a) := by simp [fail, refuse]

theorem yields_command_ok {c : Command} {a : c.Answer} {tr : List Exchange} :
    (command c).Yields tr (.ok a) ↔ tr = [⟨c, a⟩] := by
  simp only [command, yields_ask, yields_done, Except.ok.injEq]
  constructor
  · rintro ⟨b, tr', rfl, rfl, rfl⟩; rfl
  · rintro rfl; exact ⟨a, [], rfl, rfl, rfl⟩

/-- A counted call is one call, and is counted whether it succeeds or not. -/
theorem history_of_counted {c : MintCall} {r : Outcome c.Reply} {tr : List Exchange}
    (h : (counted c).Yields tr r) :
    tr = [⟨.call c, r⟩, ⟨.record (.operation c.operation), ()⟩] := by
  obtain ⟨answer, t, rfl, hcall⟩ := yields_ask.mp h
  obtain ⟨_, t', rfl, hrecord⟩ := yields_ask.mp hcall
  obtain ⟨rfl, rfl⟩ := yields_done.mp hrecord
  rfl

theorem mem_of_counted {c : MintCall} {a : c.Reply} {tr : List Exchange}
    (h : (counted c).Yields tr (.ok a)) : (⟨.call c, .ok a⟩ : Exchange) ∈ tr := by
  rw [history_of_counted h]
  exact List.mem_cons_self

/-- One run for each item, each a part of the whole run. -/
theorem forall₂_of_yields_mapM {f : α → Program β} {xs : List α} {ys : List β} {tr : List Exchange}
    (h : (xs.mapM f).Yields tr (.ok ys)) :
    List.Forall₂ (fun x y => ∃ t, t <:+: tr ∧ (f x).Yields t (.ok y)) xs ys := by
  induction xs generalizing tr ys with
  | nil =>
    obtain ⟨-, rfl⟩ := yields_pure_ok.mp h
    exact .nil
  | cons x xs ih =>
    simp only [List.mapM_cons, yields_bind_ok, yields_pure_ok] at h
    obtain ⟨y, t₁, _, rfl, hy, ys, t₂, _, rfl, hys, rfl, rfl⟩ := h
    refine .cons ⟨t₁, (List.prefix_append _ _).isInfix, hy⟩ ((ih hys).imp ?_)
    rintro x y ⟨t, ht, h⟩
    rw [List.append_nil]
    exact ⟨t, ht.trans (List.suffix_append _ _).isInfix, h⟩

/-! ## What is asked at all -/

/-- Every command that the program can ask satisfies `P`. -/
def Only (P : Command → Prop) : Program α → Prop
  | .done _ => True
  | .ask c next => P c ∧ ∀ a, (next a).Only P

variable {P Q : Command → Prop}

theorem Only.mono (h : ∀ c, P c → Q c) {p : Program α} (hp : p.Only P) : p.Only Q := by
  induction p with
  | done r => trivial
  | ask c next ih => exact ⟨h c hp.1, fun a => ih a (hp.2 a)⟩

theorem Only.bind {p : Program α} {f : α → Program β} (hp : p.Only P) (hf : ∀ a, (f a).Only P) :
    (p >>= f).Only P := by
  change (p.andThen f).Only P
  induction p with
  | done r =>
    cases r with
    | ok a => exact hf a
    | error e => trivial
  | ask c next ih => exact ⟨hp.1, fun a => ih a (hp.2 a)⟩

theorem Only.attempt {p : Program α} (hp : p.Only P) : p.attempt.Only P := by
  induction p with
  | done r => trivial
  | ask c next ih => exact ⟨hp.1, fun a => ih a (hp.2 a)⟩

theorem Only.mapM {f : α → Program β} (hf : ∀ a, (f a).Only P) (xs : List α) :
    (xs.mapM f).Only P := by
  induction xs with
  | nil => trivial
  | cons x xs ih =>
    rw [List.mapM_cons]
    exact (hf x).bind fun _ => ih.bind fun _ => trivial

theorem Only.forM {f : α → Program Unit} (hf : ∀ a, (f a).Only P) (xs : List α) :
    (xs.forM f).Only P := by
  induction xs with
  | nil => trivial
  | cons x xs ih => exact (hf x).bind fun _ => ih

theorem Only.command {c : Command} (hc : P c) : (command c).Only P := ⟨hc, fun _ => trivial⟩

theorem Only.history {p : Program α} (hp : p.Only P) {tr : List Exchange} {r : Outcome α}
    (h : p.Yields tr r) : ∀ x ∈ tr, P x.command := by
  induction h with
  | done r => simp
  | ask _ ih =>
    intro x hx
    rcases List.mem_cons.mp hx with rfl | hx
    · exact hp.1
    · exact ih (hp.2 _) x hx

/-- What every step keeps, and says about its exchange, holds of the whole run. -/
theorem Only.run_inv {σ : Type} {handle : (c : Command) → σ → c.Answer × σ} {I : σ → Prop}
    {A : Exchange → Prop}
    (hstep : ∀ c s, P c → I s → A ⟨c, (handle c s).1⟩ ∧ I (handle c s).2) {p : Program α}
    (hp : p.Only P) {s : σ} (hs : I s) : ∀ x ∈ p.history handle s, A x := by
  induction p generalizing s with
  | done r => simp [Program.history]
  | ask c next ih =>
    obtain ⟨hx, hs'⟩ := hstep c s hp.1 hs
    exact List.forall_mem_cons.mpr ⟨hx, ih _ (hp.2 _) hs'⟩

end Program

end Ecash
