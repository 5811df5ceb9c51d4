import Ecash.Selection.Candidate
import Ecash.Program

/-!
# One trial of a selection

A trial fills a subset in a random order up to the target, then exchanges
members for candidates outside that bring it closer. A trial that is better
than all before it is trimmed of members it can do without.
-/
namespace Ecash.Selection

/-- A subset, the candidates outside it in ascending order, and the subset's
totals. -/
structure Trial where
  members : List Candidate
  others : List Candidate
  totals : Totals
  deriving DecidableEq, Repr

/-! ## Filling -/

/-- Takes candidates in the given order until the target is reached. An exact
match stops before the candidate that would pass the target.
mirrors engine/selection:193-207 -/
def fill (r : Request) : (order : List Candidate) → (t : Totals) → List Candidate × Totals
  | [], t => ([], t)
  | c :: rest, t =>
    let t' := t.plus c
    if r.exact ∧ r.target < r.net t' then ([], t)
    else if r.target ≤ r.net t' then ([c], t')
    else
      let (more, total) := fill r rest t'
      (c :: more, total)

/-- The items of a list in another order. -/
def arranged {α : Type} (xs : List α) (order : List Nat) : List α := order.filterMap (xs[·]?)

/-- The trial before any exchange. -/
def Trial.start (r : Request) (cs : List Candidate) (order : Shuffle cs.length) : Trial :=
  let (members, totals) := fill r (arranged cs order.val) .zero
  ⟨members, cs.filter (· ∉ members), totals⟩

/-! ## Exchanging -/

/-- The candidate outside that a member would best be exchanged for, when the
others of the subset are `gap` short of the target. -/
def Trial.partner? (r : Request) (gap : Int) (others : List Candidate) :
    Option (Candidate × List Candidate) :=
  if r.exact then takeAtMost? r (gap * 1000) others else takeAtLeast? r (gap * 1000) others

/-- An exact match only exchanges upward; a close one never exchanges upward
once the rest of the subset reaches the target.
mirrors engine/selection:227-229 -/
def allowed (r : Request) (gap : Int) (out inn : Candidate) : Bool :=
  (!r.exact || r.worth out < r.worth inn) && (0 ≤ gap || r.worth inn ≤ r.worth out)

/-- Exchanges the member at position `i`, if that helps.
mirrors engine/selection:216-234 -/
def Trial.exchange (r : Request) (s : Trial) (i : Nat) : Trial :=
  match s.members[i]? with
  | none => s
  | some out =>
    let t := s.totals.minus out
    let gap := r.target - r.net t
    match partner? r gap s.others with
    | none => s
    | some (inn, rest) =>
      if allowed r gap out inn then ⟨s.members.set i inn, insert r out rest, t.plus inn⟩ else s

/-- A worth that ends the search, given the most that may be paid over.
mirrors engine/selection:184-185 -/
def acceptable (r : Request) (most net : Int) : Bool :=
  net = r.target || (!r.exact && r.target ≤ net && net ≤ most)

/-- Exchanges position after position until the subset is acceptable.
mirrors engine/selection:213-234 -/
def Trial.exchanges (r : Request) (most : Int) (s : Trial) : List Nat → Trial
  | [] => s
  | i :: rest => if acceptable r most (r.net s.totals) then s else (s.exchange r i).exchanges r most rest

/-! ## Keeping the best -/

/-- A subset that reaches the target; `ascending` lists it from the least worth. -/
structure Best where
  ascending : List Candidate
  totals : Totals
  excess : Int
  deriving DecidableEq, Repr

/-- Drops members from the least worth on, as long as the target is reached.
mirrors engine/selection:246-259 -/
def trim (r : Request) : (rest : List Candidate) → (t : Totals) → Best → Best
  | c :: d :: rest, t, best =>
    if best.excess ≤ 0 then best
    else
      let t' := t.minus c
      match r.excess? t' with
      | none => best
      | some e =>
        if e < best.excess then trim r (d :: rest) t' ⟨d :: rest, t', e⟩
        else trim r (d :: rest) t best
  | [], _, best | [_], _, best => best

/-- The better of a trial, trimmed, and the best before it.
mirrors engine/selection:236-259 -/
def Trial.improve (r : Request) (s : Trial) (best : Option Best) : Option Best :=
  match r.excess? s.totals with
  | none => best
  | some e =>
    if best.all (e < ·.excess) then
      let cs := (descending r s.members).reverse
      some (trim r cs s.totals ⟨cs, s.totals, e⟩)
    else best

end Ecash.Selection
