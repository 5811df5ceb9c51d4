import Ecash.Selection.Trial

/-!
# Selecting proofs

`select` repeats trials until one is acceptable, their number is used up or
time has run out, and divides the proofs into those of the best trial and the
rest. A search without a result keeps everything.
-/
namespace Ecash.Selection

/-- Bounds on the search, and how much may be paid over the target. -/
structure Limits where
  trials : Nat
  milliseconds : Nat
  exchanges : Nat
  overagePercent : Float
  overageAmount : Nat
  deriving Repr

def Limits.standard : Limits := ⟨60, 1000, 5000, 0.0, 0⟩

/-- The largest worth that is accepted at once for a close match.
mirrors engine/selection:178-182 -/
def Limits.most (l : Limits) (target available : Int) : Outcome Int :=
  match Decimal.ofInt? target with
  | none => .error .tooLarge
  | some x =>
    match Decimal.ceil? (x * (1 + l.overagePercent / 100)) with
    | none => .error .tooLarge
    | some c => .ok (min c (min (target + l.overageAmount) available))

/-- A fresh trial. -/
def trial (r : Request) (l : Limits) (most : Int) (cs : List Candidate) : Program Trial := do
  let s := Trial.start r cs (← Program.shuffle cs.length)
  let order ← Program.shuffle s.members.length
  return s.exchanges r most (order.val.take l.exchanges)

/-- The search may stop with this. -/
def settled (r : Request) (most : Int) (best : Option Best) : Bool :=
  best.any fun b => acceptable r most (r.net b.totals)

/-- More than the allowed time lies between two readings of the clock. -/
def Limits.overtime (l : Limits) (started now : Float) : Bool :=
  Decimal.exceeds ((now - started) * 1000) l.milliseconds

/-- Up to `n` trials; an exact match that runs out of time fails.
mirrors engine/selection:192-270 -/
def search (r : Request) (l : Limits) (most : Int) (cs : List Candidate) (started : Float) :
    (n : Nat) → Option Best → Program (Option Best)
  | 0, best => return best
  | n + 1, best => do
    let best := (← trial r l most cs).improve r best
    if settled r most best then return best
    if l.overtime started (← Program.now) then
      Program.record (.selectionTimeout r.exact)
      if r.exact then Program.fail .selectionTimeout
      else
        Program.warn .selectionSlow
        return best
    else search r l most cs started n best

/-- The proofs at the chosen places, in that order, and all others in theirs. A
chosen proof is not kept at another place.
mirrors engine/selection:275-277 -/
def divide (proofs : List Proof) (chosen : List Nat) : Partition :=
  let send := arranged proofs chosen
  ⟨(proofs.zipIdx.filter fun (q, i) => i ∉ chosen && !send.any q.isSame).map Prod.fst, send⟩

/-- The proofs of a subset, the most worth first. -/
def Best.chosen (b : Best) : List Nat := b.ascending.reverse.map Candidate.index

/-- Selects proofs, without counting the run.
mirrors engine/selection:127-279 -/
def choose (chain : KeyChain) (l : Limits) (r : Request) (proofs : List Proof) : Program Partition := do
  let started ← Program.now
  let cs := candidates r (← offers chain proofs)
  let available := r.net (.of cs)
  if r.target ≤ 0 ∨ available < r.target then return ⟨proofs, []⟩
  let most ← l.most r.target available
  match ← search r l most cs started l.trials none with
  | none => return ⟨proofs, []⟩
  | some best =>
    let _ ← Program.now
    return divide proofs best.chosen

/-- Selects proofs whose net amount is at least the target.
mirrors engine/selection:93-121 -/
def select (chain : KeyChain) (l : Limits) (r : Request) (proofs : List Proof) : Program Partition := do
  let result ← (choose chain l r proofs).attempt
  Program.record (.selection r.exact)
  Program.ofOutcome result

end Ecash.Selection
