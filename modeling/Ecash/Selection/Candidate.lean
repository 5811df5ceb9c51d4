import Ecash.Fee

/-!
# Candidates for a selection

A selection looks for proofs that are worth at least a target. Fees are charged
on whole selections, in thousandths of a unit, and rounded there only; the
worth of a single candidate is therefore kept in thousandths.
-/
namespace Ecash.Selection

/-- What is looked for. -/
structure Request where
  target : Int
  /-- The selection's own input fee is taken off its amount. -/
  includeFees : Bool
  /-- Nothing but the target will do. -/
  exact : Bool
  deriving DecidableEq, Repr

/-- A proof on offer: its place in the list of proofs, amount and rate. -/
structure Candidate where
  index : Nat
  amount : Int
  feePpk : Int
  deriving DecidableEq, Repr

/-- Sums over a collection of candidates. -/
structure Totals where
  amount : Int
  feePpk : Int
  deriving DecidableEq, Repr

namespace Totals

def zero : Totals := ⟨0, 0⟩

def plus (t : Totals) (c : Candidate) : Totals := ⟨t.amount + c.amount, t.feePpk + c.feePpk⟩

def minus (t : Totals) (c : Candidate) : Totals := ⟨t.amount - c.amount, t.feePpk - c.feePpk⟩

/-- The sums over a list. -/
def of (cs : List Candidate) : Totals := cs.foldl plus zero

end Totals

namespace Request

/-- What a collection with these totals is worth. -/
def net (r : Request) (t : Totals) : Int :=
  if r.includeFees then t.amount - Fee.ceilPpk t.feePpk else t.amount

/-- The worth of one candidate in thousandths. -/
def worth (r : Request) (c : Candidate) : Int :=
  c.amount * 1000 - if r.includeFees then c.feePpk else 0

/-- How far a collection that reaches the target passes it, in thousandths;
the rate breaks ties in favour of cheaper keysets.
mirrors engine/selection:136-141 -/
def excess? (r : Request) (t : Totals) : Option Int :=
  if r.net t < r.target then none else some ((t.amount - r.target) * 1000 + t.feePpk)

/-- The target in thousandths. -/
def goal (r : Request) : Int := r.target * 1000

end Request

/-! ## Lists in order of worth -/

/-- Ascending worth, equal worths in their old order. -/
def ascending (r : Request) (cs : List Candidate) : List Candidate :=
  cs.mergeSort fun a b => decide (r.worth a ≤ r.worth b)

/-- Descending worth, equal worths in their old order. -/
def descending (r : Request) (cs : List Candidate) : List Candidate :=
  cs.mergeSort fun a b => decide (r.worth b ≤ r.worth a)

/-- Puts a candidate into an ascending list, before all that are worth as much. -/
def insert (r : Request) (c : Candidate) (cs : List Candidate) : List Candidate :=
  cs.takeWhile (r.worth · < r.worth c) ++ c :: cs.dropWhile (r.worth · < r.worth c)

/-- Takes the last candidate worth at most `limit` out of an ascending list.
mirrors engine/selection:57-59 -/
def takeAtMost? (r : Request) (limit : Int) (cs : List Candidate) :
    Option (Candidate × List Candidate) :=
  let low := cs.takeWhile (r.worth · ≤ limit)
  low.getLast?.map fun c => (c, low.dropLast ++ cs.dropWhile (r.worth · ≤ limit))

/-- Takes the first candidate worth at least `limit` out of an ascending list.
mirrors engine/selection:62-64 -/
def takeAtLeast? (r : Request) (limit : Int) (cs : List Candidate) :
    Option (Candidate × List Candidate) :=
  match cs.dropWhile (r.worth · < limit) with
  | [] => none
  | c :: high => some (c, cs.takeWhile (r.worth · < limit) ++ high)

/-! ## Who takes part -/

/-- The candidate for each proof, with the rate of its keyset. -/
def offers (chain : KeyChain) (proofs : List Proof) : Outcome (List Candidate) :=
  (proofs.zipIdx).mapM fun (q, i) => do return ⟨i, q.amount, ← Fee.proofPpk chain q⟩

/-- Without those that cost as much as they bring. -/
def worthwhile (r : Request) (cs : List Candidate) : List Candidate :=
  if r.includeFees then cs.filter (0 < r.worth ·) else cs

/-- Cuts an ascending list: for an exact match nothing beyond the goal can
help, for a close one nothing beyond the first that reaches the goal alone.
mirrors engine/selection:158-172 -/
def prune (r : Request) (cs : List Candidate) : List Candidate :=
  if r.exact then cs.takeWhile (r.worth · ≤ r.goal)
  else
    match cs.dropWhile (r.worth · < r.goal) with
    | [] => cs
    | c :: _ => cs.takeWhile (r.worth · ≤ r.worth c)

/-- The candidates among `offers`, ascending.
mirrors engine/selection:143-172 -/
def candidates (r : Request) (offers : List Candidate) : List Candidate :=
  prune r (ascending r (worthwhile r offers))

end Ecash.Selection
