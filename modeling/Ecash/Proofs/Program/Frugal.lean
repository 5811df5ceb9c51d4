import Ecash.Proofs.Counter
import Ecash.Proofs.Program.Passive
import Mathlib.Data.List.Perm.Subperm

/-!
# Programs that use no index but their own

A program holds the indices of the blocks that it was granted. `Frugal` says
that it makes new outputs from these only, and from none of them twice: an
index that is used is no longer held. What else a program asks for leaves its
indices alone (`frugal_of_idle`), and a sequence of frugal programs is frugal
when the second one gets by with what the first one leaves (`Frugal.bind`).
-/
namespace Ecash

open scoped List

/-- The index that a new output is made from. -/
def Command.used : Command → List Index
  | .derive keyset counter .reserved => [(keyset, counter)]
  | _ => []

/-- The indices of a block that is granted. -/
def Exchange.granted : Exchange → List Index
  | ⟨.reserve keyset n, .ok b⟩ => indices keyset b.start n.toNat
  | _ => []

@[simp]
theorem granted_derive {keyset : Json} {counter : Int} {use : IndexUse}
    (r : (Command.derive keyset counter use).Answer) :
    Exchange.granted ⟨.derive keyset counter use, r⟩ = [] := rfl

/-- The indices that new outputs are made from. -/
def used (tr : List Exchange) : List Index := tr.flatMap (·.command.used)

@[simp]
theorem used_nil : used [] = [] := rfl

@[simp]
theorem used_append (t₁ t₂ : List Exchange) : used (t₁ ++ t₂) = used t₁ ++ used t₂ :=
  List.flatMap_append

@[simp]
theorem used_singleton (x : Exchange) : used [x] = x.command.used := List.flatMap_singleton ..

/-- Neither reserves indices nor uses those that were reserved. -/
def Command.Idle : Command → Prop
  | .reserve .. | .derive _ _ .reserved => False
  | _ => True

namespace Command

variable {c : Command}

theorem Quiet.idle (h : c.Quiet) : c.Idle := by
  cases c with
  | reserve | derive => cases h
  | _ => trivial

theorem Announcing.idle {notice : Notice} (h : c.Announcing notice) : c.Idle := by
  cases c with
  | reserve | derive => cases h
  | _ => trivial

theorem Drawing.idle (h : c.Drawing) : c.Idle := by
  cases c <;> trivial

theorem Deriving.idle {keyset : Json} {use : IndexUse} (h : c.Deriving keyset use)
    (hu : use ≠ .reserved) : c.Idle := by
  obtain ⟨counter, rfl⟩ := h
  cases use with
  | reserved => exact absurd rfl hu
  | pinned | recovery => trivial

theorem Idle.used (h : c.Idle) : c.used = [] := by
  unfold Command.used
  split
  · cases h
  · rfl

theorem Idle.granted (h : c.Idle) (a : c.Answer) : Exchange.granted ⟨c, a⟩ = [] := by
  cases c with
  | reserve keyset n => cases h
  | _ => rfl

end Command

namespace Program

variable {α β : Type} {own : List Index} {Q : α → List Index → Prop} {R : β → List Index → Prop}

/-- With the indices `own`, and with those of every block that it is granted on
the way, the program has all it needs; where it ends well it leaves indices that
satisfy `Q`. -/
inductive Frugal : Program α → List Index → (α → List Index → Prop) → Prop where
  | ok {a : α} {own : List Index} {Q : α → List Index → Prop} (h : Q a own) :
    Frugal (.done (.ok a)) own Q
  | error {e : Failure} {own : List Index} {Q : α → List Index → Prop} :
    Frugal (.done (.error e)) own Q
  | ask {c : Command} {next : c.Answer → Program α} {own : List Index}
    {Q : α → List Index → Prop} (left : c.Answer → List Index)
    (hleft : ∀ a, c.used ++ left a <+~ own ++ Exchange.granted ⟨c, a⟩)
    (hnext : ∀ a, Frugal (next a) (left a) Q) : Frugal (.ask c next) own Q

theorem frugal_pure {a : α} (h : Q a own) : (pure a : Program α).Frugal own Q := .ok h

theorem frugal_fail (e : WalletError) : (fail e : Program α).Frugal own Q := .error

theorem Frugal.bind {p : Program α} {f : α → Program β} (hp : p.Frugal own Q)
    (hf : ∀ a own', Q a own' → (f a).Frugal own' R) : (p >>= f).Frugal own R := by
  change (p.andThen f).Frugal own R
  induction hp with
  | ok h => exact hf _ _ h
  | error => exact .error
  | ask left hleft _ ih => exact .ask left hleft fun a => ih a hf

/-- A result may be ignored. -/
theorem Frugal.discard {p : Program α} (hp : p.Frugal own Q) :
    (do let _ ← p : Program Unit).Frugal own fun _ _ => True :=
  hp.bind fun _ _ _ => frugal_pure trivial

theorem frugal_of_idle {p : Program α} (hp : p.Only Command.Idle) (hQ : ∀ a, Q a own) :
    p.Frugal own Q := by
  induction p with
  | done r =>
    cases r with
    | ok a => exact .ok (hQ a)
    | error e => exact .error
  | ask c next ih =>
    refine .ask (fun _ => own) (fun a => ?_) fun a => ih a (hp.2 a)
    rw [hp.1.used, hp.1.granted, List.nil_append, List.append_nil]

/-- What comes after an idle program finds the indices as they were. -/
theorem frugal_bind_of_idle {p : Program α} {f : α → Program β} (hp : p.Only Command.Idle)
    (hf : ∀ a, (f a).Frugal own R) : (p >>= f).Frugal own R :=
  (frugal_of_idle (Q := fun _ own' => own' = own) hp fun _ => rfl).bind fun a _ h => h ▸ hf a

/-- A lifted outcome asks for nothing. -/
theorem frugal_bind_of_lift {r : Outcome α} {f : α → Program β}
    (hf : ∀ a, r = .ok a → (f a).Frugal own R) :
    ((liftM r : Program α) >>= f).Frugal own R := by
  cases r with
  | ok a => exact hf a rfl
  | error e => exact .error

end Program

end Ecash
