import Ecash.Proofs.Selection.Soundness

/-!
# Trials from a stream of orders

A close selection is decided by its random orders and by how many trials it makes.
`bestAfter` and `selectionAfter` say without clock or world what stands after how many
trials, when the orders come from a stream (`Draws`): a trial takes two orders off it,
whatever was best before. `Tried` says that a run has ended with what stands after its
trials, and so does every close selection (`select_tried`); the clock only decides how
many they are.
-/
namespace Ecash

/-- The command asks for a random order. -/
def Command.draws : Command → Bool
  | .shuffle _ => true
  | _ => false

/-- The command says that time has run out. -/
def Command.hurries : Command → Bool
  | .warn .selectionSlow => true
  | _ => false

namespace Selection

open Program

/-- The same limits with another number of trials, and other time. -/
def Limits.budget (l : Limits) (trials milliseconds : Nat) : Limits := { l with trials, milliseconds }

/-! ## Orders from a stream -/

/-- Random orders come from a stream of their own: each is what the stream has come to,
and nothing else moves the stream on. -/
structure Draws {σ ρ : Type} (draw : (n : Nat) → ρ → Shuffle n × ρ)
    (handle : (c : Command) → σ → c.Answer × σ) (view : σ → ρ) : Prop where
  shuffle : ∀ n s, (handle (.shuffle n) s).1 = (draw n (view s)).1 ∧
    view (handle (.shuffle n) s).2 = (draw n (view s)).2
  other : ∀ c s, c.draws = false → view (handle c s).2 = view s

/-- The orders of a reproducible world come from its shuffler. -/
theorem draws_world (S : Suite) :
    Draws (fun n x => x.sample n) (World.handle S) World.shuffler where
  shuffle _ _ := ⟨rfl, rfl⟩
  other c s hc := by
    cases c with
    | shuffle n => cases hc
    | _ => rfl

/-- How many orders were drawn. -/
def drawn (tr : List Exchange) : Nat := tr.countP (·.command.draws)

/-- How many trials were made; each draws an order for the fill and one for the exchanges. -/
def trialsIn (tr : List Exchange) : Nat := drawn tr / 2

/-- Time did not run out. -/
def Unhurried (tr : List Exchange) : Prop := ∀ x ∈ tr, x.command.hurries = false

instance (tr : List Exchange) : Decidable (Unhurried tr) := inferInstanceAs (Decidable (∀ x ∈ tr, _))

@[simp]
theorem drawn_append (t₁ t₂ : List Exchange) : drawn (t₁ ++ t₂) = drawn t₁ + drawn t₂ :=
  List.countP_append

@[simp]
theorem unhurried_append {t₁ t₂ : List Exchange} :
    Unhurried (t₁ ++ t₂) ↔ Unhurried t₁ ∧ Unhurried t₂ := List.forall_mem_append

/-! ## What the stream decides -/

section Stream

variable {ρ : Type} (draw : (n : Nat) → ρ → Shuffle n × ρ) (r : Request) (exchanges : Nat)
  (most : Int) (cs : List Candidate)

/-- The trial that starts where the stream is. -/
def trialFrom (x : ρ) : Trial × ρ :=
  let (order, x) := draw cs.length x
  let s := Trial.start r cs order
  let (order, x) := draw s.members.length x
  (s.exchanges r most (order.val.take exchanges), x)

/-- The best subset after `n` trials, or after the first that settles the search. -/
def bestAfter : (n : Nat) → ρ → Option Best → Option Best
  | 0, _, best => best
  | n + 1, x, best =>
    let (s, x) := trialFrom draw r exchanges most cs x
    let best := s.improve r best
    if settled r most best then best else bestAfter n x best

end Stream

/-- The division along the best subset; without one everything is kept. -/
def divideBest (proofs : List Proof) : Option Best → Partition
  | none => ⟨proofs, []⟩
  | some best => divide proofs best.chosen

/-- What a search works with: the candidates, which reach the target together, and the
most that is accepted at once. There may be nothing to search. -/
def prepare (chain : KeyChain) (l : Limits) (r : Request) (proofs : List Proof) :
    Outcome (Option (List Candidate × Int)) := do
  let cs := candidates r (← offers chain proofs)
  let available := r.net (.of cs)
  if r.target ≤ 0 ∨ available < r.target then return none
  return some (cs, ← l.most r.target available)

/-- The close selection after `n` trials. -/
def selectionAfter {ρ : Type} (draw : (n : Nat) → ρ → Shuffle n × ρ) (chain : KeyChain) (l : Limits)
    (r : Request) (proofs : List Proof) (n : Nat) (x : ρ) : Outcome Partition := do
  match ← prepare chain l r proofs with
  | none => return ⟨proofs, []⟩
  | some (cs, most) => return divideBest proofs (bestAfter draw r l.exchanges most cs n x none)

/-! ## Running the trials -/

section Runs

variable {σ ρ : Type} {draw : (n : Nat) → ρ → Shuffle n × ρ}
  {handle : (c : Command) → σ → c.Answer × σ} {view : σ → ρ} {chain : KeyChain} {l : Limits}
  {r : Request} {proofs : List Proof} {most : Int} {cs : List Candidate} {started : Float}

theorem run_shuffle (H : Draws draw handle view) (n : Nat) (s : σ) :
    ((shuffle n).run handle s).1 = .ok (draw n (view s)).1 ∧
      view ((shuffle n).run handle s).2 = (draw n (view s)).2 :=
  ⟨congrArg Except.ok (H.shuffle n s).1, (H.shuffle n s).2⟩

theorem run_trial (H : Draws draw handle view) (r : Request) (l : Limits) (most : Int)
    (cs : List Candidate) (s : σ) :
    ((trial r l most cs).run handle s).1 = .ok (trialFrom draw r l.exchanges most cs (view s)).1 ∧
      view ((trial r l most cs).run handle s).2 =
        (trialFrom draw r l.exchanges most cs (view s)).2 := by
  obtain ⟨h₁, h₂⟩ := run_shuffle H cs.length s
  obtain ⟨h₃, h₄⟩ := run_shuffle H (Trial.start r cs (draw cs.length (view s)).1).members.length
    ((shuffle cs.length).run handle s).2
  rw [trial, run_bind_ok h₁, run_bind_ok h₃]
  unfold trialFrom
  dsimp only
  rw [← h₂]
  exact ⟨rfl, h₄⟩

theorem drawn_trial (s : σ) : drawn ((trial r l most cs).history handle s) = 2 * 1 := rfl

/-- The run of `p` from `s` on made `t` trials, at most `limit`, and ended with what stands
`after` so many; unless time ran out, no more of them would have changed that. -/
structure Tried {α : Type} (handle : (c : Command) → σ → c.Answer × σ) (s : σ) (p : Program α)
    (after : Nat → Outcome α) (limit t : Nat) : Prop where
  le : t ≤ limit
  drawn : drawn (p.history handle s) = 2 * t
  run : (p.run handle s).1 = after t
  all : Unhurried (p.history handle s) → after t = after limit

variable {α β : Type}

theorem Tried.trialsIn {p : Program α} {s : σ} {after : Nat → Outcome α} {limit t : Nat}
    (ht : Tried handle s p after limit t) : trialsIn (p.history handle s) = t := by
  rw [Selection.trialsIn, ht.drawn, Nat.mul_div_cancel_left t (by decide)]

theorem tried_done (s : σ) (o : Outcome α) (limit : Nat) :
    Tried handle s (.done o) (fun _ => o) limit 0 :=
  ⟨Nat.zero_le _, rfl, rfl, fun _ => rfl⟩

/-- Trials of two programs in a row add up. -/
theorem Tried.bind {p : Program α} {f : α → Program β} {s : σ} {a : α} {k limit t : Nat}
    {after : Nat → Outcome β} (hp : (p.run handle s).1 = .ok a)
    (hd : Selection.drawn (p.history handle s) = 2 * k)
    (ht : Tried handle (p.run handle s).2 (f a) (fun n => after (n + k)) limit t) :
    Tried handle s (p >>= f) after (limit + k) (t + k) where
  le := Nat.add_le_add_right ht.le k
  drawn := by
    rw [history_bind_ok hp, drawn_append, hd, ht.drawn]
    omega
  run := by rw [run_bind_ok hp, ht.run]
  all h := by
    rw [history_bind_ok hp] at h
    exact ht.all (unhurried_append.mp h).2

/-- The clock is read without a trial. -/
theorem Tried.now {f : Float → Program β} {s : σ} {limit t : Nat} {after : Nat → Outcome β}
    (ht : Tried handle (handle .now s).2 (f (handle .now s).1) after limit t) :
    Tried handle s (Program.now >>= f) after limit t :=
  Tried.bind (k := 0) rfl rfl ht

/-- A close search always ends, after at least one trial if any is to be made. -/
theorem search_tried (H : Draws draw handle view) (hc : r.exact = false) (l : Limits) (most : Int)
    (cs : List Candidate) (started : Float) (n : Nat) (best : Option Best) (s : σ) :
    ∃ t, Tried handle s (search r l most cs started n best)
        (fun n => .ok (bestAfter draw r l.exchanges most cs n (view s) best)) n t ∧
      (0 < n → 0 < t) := by
  induction n generalizing best s with
  | zero => exact ⟨0, ⟨le_refl 0, rfl, rfl, fun _ => rfl⟩, id⟩
  | succ n ih =>
    obtain ⟨hrun, hview⟩ := run_trial H r l most cs s
    -- what is left to show is about the rest of the search
    suffices h : ∃ t, Tried handle ((trial r l most cs).run handle s).2 _ _ n t from
      have ⟨t, ht⟩ := h
      ⟨t + 1, Tried.bind hrun (drawn_trial s) ht, fun _ => Nat.succ_pos t⟩
    simp only [bestAfter]
    split
    · exact ⟨0, tried_done _ _ n⟩
    · rw [← hview, ← H.other .now ((trial r l most cs).run handle s).2 rfl]
      suffices h : ∃ t, Tried handle _ _ _ n t from
        have ⟨t, ht⟩ := h
        ⟨t, ht.now⟩
      split
      · rw [hc]
        -- more trials might have helped, but the warning tells that time ran out
        refine ⟨0, Nat.zero_le n, rfl, rfl, fun hu => ?_⟩
        exact Bool.noConfusion (hu ⟨.warn .selectionSlow, _⟩ (.tail _ (.head _)))
      · exact (ih _ _).imp fun _ h => h.1

/-- What follows the search; for a subset that was found the clock is read again. -/
def conclude (proofs : List Proof) : Option Best → Program Partition
  | none => return ⟨proofs, []⟩
  | some best => do
    let _ ← now
    return divide proofs best.chosen

theorem choose_eq (chain : KeyChain) (l : Limits) (r : Request) (proofs : List Proof) :
    choose chain l r proofs = (do
      let started ← now
      match ← prepare chain l r proofs with
      | none => return ⟨proofs, []⟩
      | some (cs, most) => search r l most cs started l.trials none >>= conclude proofs) := by
  unfold choose prepare
  simp only [liftM_bind, bind_assoc]
  refine bind_congr fun started => bind_congr fun os => ?_
  split
  · rfl
  · simp only [liftM_bind, liftM_pure, bind_assoc, pure_bind]
    refine bind_congr fun most => bind_congr fun best => ?_
    cases best <;> rfl

theorem Tried.attempt {p : Program α} {s : σ} {after : Nat → Outcome α} {limit t : Nat}
    (ht : Tried handle s p after limit t) :
    Tried handle s p.attempt (fun n => .ok (after n)) limit t := by
  have hsame : p.attempt.history handle s = p.history handle s := (run_attempt p s).2
  refine ⟨ht.le, hsame ▸ ht.drawn, ?_, fun h => congrArg Except.ok (ht.all (hsame ▸ h))⟩
  rw [(run_attempt p s).1, ht.run]

/-- What follows the trials and makes none of its own. -/
theorem Tried.andThen {p : Program α} {f : α → Program β} {s : σ} {after : Nat → α}
    {g : α → Outcome β} {limit t : Nat} (ht : Tried handle s p (fun n => .ok (after n)) limit t)
    (hf : ∀ a s, ((f a).run handle s).1 = g a ∧ Selection.drawn ((f a).history handle s) = 0) :
    Tried handle s (p >>= f) (fun n => g (after n)) limit t where
  le := ht.le
  drawn := by rw [history_bind_ok ht.run, drawn_append, ht.drawn, (hf _ _).2, Nat.add_zero]
  run := by rw [run_bind_ok ht.run, (hf _ _).1]
  all h := by
    rw [history_bind_ok ht.run, unhurried_append] at h
    exact congrArg g (Except.ok.inj (ht.all h.1))

/-- A close selection is decided by the stream of orders and the number of trials. -/
theorem choose_tried (H : Draws draw handle view) (hc : r.exact = false) (chain : KeyChain)
    (l : Limits) (proofs : List Proof) (s : σ) :
    ∃ t, Tried handle s (choose chain l r proofs)
        (fun n => selectionAfter draw chain l r proofs n (view s)) l.trials t ∧
      (0 < l.trials → 0 < t ∨ ∀ n, selectionAfter draw chain l r proofs n (view s) =
        selectionAfter draw chain l r proofs t (view s)) := by
  rw [choose_eq, ← H.other .now s rfl]
  suffices h : ∃ t, Tried handle _ _ _ l.trials t ∧ _ from
    have ⟨t, ht, hpos⟩ := h
    ⟨t, ht.now, hpos⟩
  unfold selectionAfter
  rcases prepare chain l r proofs with e | _ | ⟨cs, most⟩
  · exact ⟨0, tried_done _ _ _, fun _ => .inr fun _ => rfl⟩
  · exact ⟨0, tried_done _ _ _, fun _ => .inr fun _ => rfl⟩
  · obtain ⟨t, ht, hpos⟩ := search_tried H hc l most cs (handle .now s).1 l.trials none
      (handle .now s).2
    refine ⟨t, ht.andThen (g := fun best => .ok (divideBest proofs best)) ?_, fun h => .inl (hpos h)⟩
    rintro (_ | best) s <;> exact ⟨rfl, rfl⟩

theorem select_tried (H : Draws draw handle view) (hc : r.exact = false) (chain : KeyChain)
    (l : Limits) (proofs : List Proof) (s : σ) :
    ∃ t, Tried handle s (select chain l r proofs)
        (fun n => selectionAfter draw chain l r proofs n (view s)) l.trials t ∧
      (0 < l.trials → 0 < t ∨ ∀ n, selectionAfter draw chain l r proofs n (view s) =
        selectionAfter draw chain l r proofs t (view s)) := by
  obtain ⟨t, ht, hpos⟩ := choose_tried H hc chain l proofs s
  exact ⟨t, ht.attempt.andThen (g := id) fun _ _ => ⟨rfl, rfl⟩, hpos⟩

end Runs

end Selection

end Ecash
