import Ecash.Proofs.Program.Ends

/-!
# Checks before commitments

A program that `Avoids` a failure does not end with it, unless it was answered with
it. A program is `Careful` about a failure if it commits to nothing before it avoids
it: until then it only asks what leaves no trace. So a careful program that ends with
the failure, without having been answered with it, has committed to nothing
(`Careful.run`), and whatever only commitments change is as it was (`run_view`).
-/
namespace Ecash

/-- Reserves or moves counters, counts what was reserved, tells a listener, or has the
mint swap, issue or pay. -/
def Command.Commits : Command → Prop
  | .reserve .. | .advance .. | .tell .. | .record (.countersReserved ..) => True
  | .call (.swap _) | .call (.mint _) | .call (.melt _) => True
  | _ => False

/-- Answered by what the caller has brought along: a factory of outputs, or a source of
counters. -/
def Command.Brought : Command → Prop
  | .produce .. | .reserve .. | .advance .. => True
  | _ => False

namespace Outcome

variable {α β : Type} {e : Failure} {r : Outcome α} {f : α → Outcome β}

def failure? : Outcome α → Option Failure
  | .ok _ => none
  | .error e => some e

theorem ne_error_of_failure? (h : r.failure? ≠ some e) : r ≠ .error e := by
  rintro rfl
  exact h rfl

theorem bind_ne_error (h : r ≠ .error e) (hf : ∀ a, f a ≠ .error e) : (r >>= f) ≠ .error e := by
  cases r with
  | ok a => exact hf a
  | error e' => exact fun he => h (by cases he; rfl)

theorem mapM_ne_error (hf : ∀ a, f a ≠ .error e) (xs : List α) : xs.mapM f ≠ .error e := by
  induction xs with
  | nil => nofun
  | cons x xs ih =>
    rw [List.mapM_cons]
    exact bind_ne_error (hf x) fun _ => bind_ne_error ih fun _ => nofun

end Outcome

/-- The failure that a command is answered with. -/
def Exchange.failure? : Exchange → Option Failure
  | ⟨.derive .., a⟩ => Outcome.failure? a
  | ⟨.produce .., a⟩ => Outcome.failure? a
  | ⟨.reserve .., a⟩ => Outcome.failure? a
  | ⟨.advance .., a⟩ => Outcome.failure? a
  | ⟨.call _, a⟩ => Outcome.failure? a
  | _ => none

namespace Program

variable {α β : Type} {e : Failure} {p : Program α} {f : α → Program β}

/-! ## Programs that avoid a failure -/

/-- Unless it is answered with this failure, the program does not end with it. -/
def Avoids (e : Failure) (p : Program α) : Prop :=
  p.Ends (fun x => x.failure? ≠ some e) (· ≠ .error e)

theorem avoids_pure (a : α) : (pure a : Program α).Avoids e := nofun

theorem avoids_lift {r : Outcome α} (h : r ≠ .error e) : (liftM r : Program α).Avoids e := h

/-- Only results that the first program can have matter to the second one. -/
theorem Avoids.bind_of_yields (h : p.Avoids e) (hf : ∀ tr a, p.Yields tr (.ok a) → (f a).Avoids e) :
    (p >>= f).Avoids e := by
  change (p.andThen f).Avoids e
  induction p with
  | done r =>
    cases r with
    | ok a => exact hf [] a (.done _)
    | error e' => exact fun he => h (by cases he; rfl)
  | ask c next ih => exact fun x hx => ih x (h x hx) fun tr a ha => hf _ a (.ask ha)

theorem Avoids.bind (h : p.Avoids e) (hf : ∀ a, (f a).Avoids e) : (p >>= f).Avoids e :=
  h.bind_of_yields fun _ a _ => hf a

/-- A command whose answer does not matter. -/
theorem avoids_asked {c : Command} : (command c).Avoids e := fun _ _ => nofun

theorem avoids_mapM {xs : List α} (hf : ∀ a ∈ xs, (f a).Avoids e) : (xs.mapM f).Avoids e := by
  induction xs with
  | nil => exact avoids_pure []
  | cons x xs ih =>
    obtain ⟨hx, hf⟩ := List.forall_mem_cons.mp hf
    rw [List.mapM_cons]
    exact hx.bind fun _ => (ih hf).bind fun _ => avoids_pure _

theorem avoids_forM {f : α → Program Unit} (hf : ∀ a, (f a).Avoids e) (xs : List α) :
    (xs.forM f).Avoids e := by
  induction xs with
  | nil => exact avoids_pure ()
  | cons x xs ih => exact (hf x).bind fun _ => ih

theorem avoids_announce (topic : Topic) (notice : Notice) (own : Option Listener) :
    (announce topic notice own).Avoids e := by
  have htell (l : Listener) : (tell topic notice l).Avoids e := by
    refine avoids_asked.bind fun took => ?_
    split
    · exact avoids_pure ()
    · exact avoids_asked
  exact (avoids_forM htell _).bind fun _ => avoids_asked.bind fun ls => avoids_forM htell ls

theorem avoids_counted (c : MintCall) : (counted c).Avoids e :=
  ends_counted fun _ hr => Outcome.ne_error_of_failure? hr

/-! ## Careful programs -/

/-- Commits to nothing before it avoids the failure. -/
def Careful (e : Failure) : Program α → Prop
  | .done _ => True
  | .ask c next => (¬ c.Commits ∧ ∀ a, (next a).Careful e) ∨ (Program.ask c next).Avoids e

theorem careful_pure (a : α) : (pure a : Program α).Careful e := trivial

theorem careful_fail (w : WalletError) : (fail w : Program α).Careful e := trivial

theorem Avoids.careful (h : p.Avoids e) : p.Careful e := by
  cases p with
  | done r => trivial
  | ask c next => exact .inr h

/-- What comes after a careful program avoids the failure. -/
theorem Careful.bind (h : p.Careful e) (hf : ∀ a, (f a).Avoids e) : (p >>= f).Careful e := by
  change (p.andThen f).Careful e
  induction p with
  | done r =>
    cases r with
    | ok a => exact (hf a).careful
    | error e' => trivial
  | ask c next ih =>
    rcases h with ⟨hc, hnext⟩ | h
    · exact .inl ⟨hc, fun a => ih a (hnext a)⟩
    · exact .inr (h.bind hf)

/-- A result may be ignored. -/
theorem Careful.discard (h : p.Careful e) : (do let _ ← p : Program Unit).Careful e :=
  h.bind fun _ => avoids_pure ()

/-- What comes after a program without commitments is careful. -/
theorem careful_bind (hp : p.Only fun c => ¬ c.Commits)
    (hf : ∀ tr a, p.Yields tr (.ok a) → (f a).Careful e) : (p >>= f).Careful e := by
  change (p.andThen f).Careful e
  induction p with
  | done r =>
    cases r with
    | ok a => exact hf [] a (.done _)
    | error e' => trivial
  | ask c next ih =>
    exact .inl ⟨hp.1, fun x => ih x (hp.2 x) fun tr a h => hf _ a (.ask h)⟩

theorem careful_lift_bind {r : Outcome α} (hf : ∀ a, r = .ok a → (f a).Careful e) :
    ((liftM r : Program α) >>= f).Careful e :=
  careful_bind trivial fun _ a h => hf a (yields_lift.mp h).2

/-! ## Runs -/

variable {σ : Type} {handle : (c : Command) → σ → c.Answer × σ} {s : σ}

/-- A failure that was no answer came before any commitment. -/
theorem Careful.history (hp : p.Careful e) (hA : ∀ x ∈ p.history handle s, x.failure? ≠ some e)
    (h : (p.run handle s).1 = .error e) : ∀ x ∈ p.history handle s, ¬ x.command.Commits := by
  induction p generalizing s with
  | done r => simp [Program.history]
  | ask c next ih =>
    rcases hp with ⟨hc, hnext⟩ | hp
    · exact List.forall_mem_cons.mpr ⟨hc, ih _ (hnext _) (List.forall_mem_cons.mp hA).2 h⟩
    · -- the program would have to end with what it avoids
      have hend : ((Program.ask c next).run handle s).1 ≠ .error e := Ends.run hp hA
      exact absurd h hend

theorem Careful.run (hp : p.Careful e) (h : (p.run handle s).1 = .error e) :
    (∃ x ∈ p.history handle s, x.failure? = some e) ∨
      ∀ x ∈ p.history handle s, ¬ x.command.Commits := by
  by_cases hx : ∃ x ∈ p.history handle s, x.failure? = some e
  · exact .inl hx
  · exact .inr (hp.history (fun x hm he => hx ⟨x, hm, he⟩) h)

/-- Whatever only commitments change. -/
theorem run_view {γ : Type} {view : σ → γ} (hview : ∀ c s, ¬ c.Commits → view (handle c s).2 = view s)
    (h : ∀ x ∈ p.history handle s, ¬ x.command.Commits) : view (p.run handle s).2 = view s := by
  induction p generalizing s with
  | done r => rfl
  | ask c next ih =>
    obtain ⟨hc, hnext⟩ := List.forall_mem_cons.mp h
    exact (ih _ hnext).trans (hview c s hc)

end Program

end Ecash
