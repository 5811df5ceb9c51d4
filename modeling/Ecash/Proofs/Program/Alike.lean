import Ecash.Proofs.Program.Run

/-!
# Programs that nobody can tell apart

`Alike R p q`: the two programs ask for the same, one thing after another, as long
as they are answered the same, and they end with the same failure or with results
that `R` relates. Whoever answers them cannot tell which one he answers
(`Alike.history`, `Alike.run`). Sequences of programs are alike when their parts are
(`Alike.bind`).
-/
namespace Ecash

/-- The same failure, or results that `R` relates. -/
inductive Outcome.Matches {α β : Type} (R : α → β → Prop) : Outcome α → Outcome β → Prop where
  | ok {a : α} {b : β} (h : R a b) : Matches R (.ok a) (.ok b)
  | error (e : Failure) : Matches R (.error e) (.error e)

theorem Outcome.Matches.refl {α : Type} (r : Outcome α) : Matches Eq r r := by
  cases r with
  | ok a => exact .ok rfl
  | error e => exact .error e

namespace Program

variable {α β γ δ : Type} {R : α → β → Prop} {Q : γ → δ → Prop}

/-- Answered the same, the two ask the same and end alike. -/
inductive Alike (R : α → β → Prop) : Program α → Program β → Prop where
  | done {r : Outcome α} {r' : Outcome β} (h : Outcome.Matches R r r') : Alike R (.done r) (.done r')
  | ask {c : Command} {f : c.Answer → Program α} {g : c.Answer → Program β}
    (h : ∀ a, Alike R (f a) (g a)) : Alike R (.ask c f) (.ask c g)

theorem Alike.refl (p : Program α) : Alike Eq p p := by
  induction p with
  | done r => exact .done (.refl r)
  | ask c next ih => exact .ask ih

theorem alike_pure {a : α} {b : β} (h : R a b) : Alike R (pure a) (pure b) := .done (.ok h)

theorem alike_fail (e : WalletError) : Alike R (fail e) (fail e) := .done (.error _)

/-- After programs that are alike, programs that are alike for related results. -/
theorem Alike.bind {p : Program α} {q : Program β} {f : α → Program γ} {g : β → Program δ}
    (h : Alike R p q) (hfg : ∀ a b, R a b → Alike Q (f a) (g b)) : Alike Q (p >>= f) (q >>= g) := by
  change Alike Q (p.andThen f) (q.andThen g)
  induction h with
  | done h =>
    cases h with
    | ok h => exact hfg _ _ h
    | error e => exact .done (.error e)
  | ask _ ih => exact .ask ih

/-- After one and the same program. -/
theorem Alike.after {p : Program α} {f : α → Program γ} {g : α → Program δ}
    (hfg : ∀ a, Alike Q (f a) (g a)) : Alike Q (p >>= f) (p >>= g) := by
  refine (Alike.refl p).bind ?_
  rintro a _ rfl
  exact hfg a

theorem Alike.attempt {p : Program α} {q : Program β} (h : Alike R p q) :
    Alike (Outcome.Matches R) p.attempt q.attempt := by
  induction h with
  | done h => exact .done (.ok h)
  | ask _ ih => exact .ask ih

section Runs

variable {σ : Type} {p : Program α} {q : Program β}

/-- What is asked and answered is the same. -/
theorem Alike.history (h : Alike R p q) (handle : (c : Command) → σ → c.Answer × σ) (s : σ) :
    p.history handle s = q.history handle s := by
  induction h generalizing s with
  | done h => rfl
  | ask _ ih => exact congrArg (List.cons _) (ih _ _)

/-- So is what becomes of the world. -/
theorem Alike.run (h : Alike R p q) (handle : (c : Command) → σ → c.Answer × σ) (s : σ) :
    Outcome.Matches R (p.run handle s).1 (q.run handle s).1 ∧
      (p.run handle s).2 = (q.run handle s).2 := by
  induction h generalizing s with
  | done h => exact ⟨h, rfl⟩
  | ask _ ih => exact ih _ _

end Runs

end Program

end Ecash
