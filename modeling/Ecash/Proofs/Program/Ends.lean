import Ecash.Proofs.Program.Run

/-!
# How a program ends

`p.Ends A Q`: answered as `A` allows, `p` ends with an outcome that satisfies
`Q`. `p.Achieves A Q`: it ends well, with a result that satisfies `Q`.
`p.Gives A r`: it ends with `r`. All have a rule for each way in which programs
are built, and speak about every run whose exchanges `A` allows (`Ends.run`,
`Achieves.run`).
-/
namespace Ecash.Program

variable {α β : Type} {A : Exchange → Prop}

/-- Answered as `A` allows, the program ends with an outcome that satisfies `Q`. -/
def Ends (A : Exchange → Prop) (Q : Outcome α → Prop) : Program α → Prop
  | .done r => Q r
  | .ask c next => ∀ a, A ⟨c, a⟩ → (next a).Ends A Q

/-- Answered as `A` allows, the program ends well, with a result that satisfies `Q`. -/
def Achieves (A : Exchange → Prop) (Q : α → Prop) (p : Program α) : Prop :=
  p.Ends A fun r => ∃ a, r = .ok a ∧ Q a

/-! ## Outcomes -/

theorem Ends.mono {Q R : Outcome α → Prop} {p : Program α} (h : p.Ends A Q) (hQ : ∀ r, Q r → R r) :
    p.Ends A R := by
  induction p with
  | done r => exact hQ r h
  | ask c next ih => exact fun a ha => ih a (h a ha)

theorem Ends.run {σ : Type} {handle : (c : Command) → σ → c.Answer × σ} {Q : Outcome α → Prop}
    {p : Program α} {s : σ} (h : p.Ends A Q) (hA : ∀ x ∈ p.history handle s, A x) :
    Q (p.run handle s).1 := by
  induction p generalizing s with
  | done r => exact h
  | ask c next ih =>
    obtain ⟨hc, hA⟩ := List.forall_mem_cons.mp hA
    exact ih _ (h _ hc) hA

theorem Ends.bind {Q : Outcome β → Prop} {p : Program α} {f : α → Program β}
    (h : p.Ends A fun r => match r with
      | .ok a => (f a).Ends A Q
      | .error e => Q (.error e)) : (p >>= f).Ends A Q := by
  change (p.andThen f).Ends A Q
  induction p with
  | done r => cases r <;> exact h
  | ask c next ih => exact fun a ha => ih a (h a ha)

theorem Ends.attempt {Q : Outcome (Outcome α) → Prop} {p : Program α}
    (h : p.Ends A fun r => Q (.ok r)) : p.attempt.Ends A Q := by
  induction p with
  | done r => exact h
  | ask c next ih => exact fun a ha => ih a (h a ha)

/-! ## Results -/

theorem Achieves.run {σ : Type} {handle : (c : Command) → σ → c.Answer × σ} {Q : α → Prop}
    {p : Program α} {s : σ} (h : p.Achieves A Q) (hA : ∀ x ∈ p.history handle s, A x) :
    ∃ a, (p.run handle s).1 = .ok a ∧ Q a :=
  Ends.run h hA

/-- What is known of every run may be used. -/
theorem Achieves.and {Q R : α → Prop} {p : Program α} (h : p.Achieves A Q)
    (hR : ∀ tr a, p.Yields tr (.ok a) → R a) : p.Achieves A fun a => Q a ∧ R a := by
  induction p with
  | done r =>
    obtain ⟨a, rfl, ha⟩ := h
    exact ⟨a, rfl, ha, hR _ a (.done _)⟩
  | ask c next ih => exact fun a ha => ih a (h a ha) fun tr r hr => hR _ _ (.ask hr)

theorem achieves_pure {Q : α → Prop} {a : α} (h : Q a) : (pure a : Program α).Achieves A Q :=
  ⟨a, rfl, h⟩

theorem achieves_lift {Q : α → Prop} {r : Outcome α} {a : α} (hr : r = .ok a) (h : Q a) :
    (liftM r : Program α).Achieves A Q :=
  ⟨a, hr, h⟩

theorem achieves_command {c : Command} {Q : c.Answer → Prop} (h : ∀ a, A ⟨c, a⟩ → Q a) :
    (command c).Achieves A Q := fun a ha => ⟨a, rfl, h a ha⟩

/-- After a good end of the first program, the second one decides. -/
theorem Achieves.ends_bind {Q : α → Prop} {R : Outcome β → Prop} {p : Program α} {f : α → Program β}
    (h : p.Achieves A Q) (hf : ∀ a, Q a → (f a).Ends A R) : (p >>= f).Ends A R := by
  refine Ends.bind (Ends.mono h ?_)
  rintro _ ⟨a, rfl, ha⟩
  exact hf a ha

theorem Achieves.bind {Q : α → Prop} {R : β → Prop} {p : Program α} {f : α → Program β}
    (h : p.Achieves A Q) (hf : ∀ a, Q a → (f a).Achieves A R) : (p >>= f).Achieves A R :=
  h.ends_bind hf

/-- A command whose answer does not matter. -/
theorem achieves_asked {c : Command} : (command c).Achieves A fun _ => True :=
  achieves_command fun _ _ => trivial

theorem ends_counted {c : MintCall} {Q : Outcome c.Reply → Prop} (h : ∀ r, A ⟨.call c, r⟩ → Q r) :
    (counted c).Ends A Q := by
  refine Ends.bind (Ends.attempt fun r hr => ?_)
  exact achieves_asked.ends_bind fun _ _ => h r hr

/-! ## Known outcomes -/

/-- Answered as `A` allows, the program ends with this outcome. -/
def Gives (A : Exchange → Prop) (r : Outcome α) (p : Program α) : Prop := p.Ends A (· = r)

theorem Gives.bind {r : Outcome α} {g : α → Outcome β} {p : Program α} {f : α → Program β}
    (hp : p.Gives A r) (hf : ∀ a, r = .ok a → (f a).Gives A (g a)) : (p >>= f).Gives A (r >>= g) := by
  refine Ends.bind (Ends.mono hp fun r' hr => ?_)
  subst hr
  cases r' with
  | ok a => exact hf a rfl
  | error e => rfl

theorem gives_pure (a : α) : (pure a : Program α).Gives A (.ok a) := rfl

end Ecash.Program
