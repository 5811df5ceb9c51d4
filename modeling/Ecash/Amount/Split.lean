import Ecash.Failure

/-!
# Splitting amounts

An amount is paid out in denominations of a keyset. `split` takes as many of
the largest denomination as fit, then of the next, and so on; `keepAmounts`
first asks for the denominations that the wallet is short of.
-/
namespace Ecash.Amount

-- Sums are core's own, whatever else is imported.
attribute [local instance (high)] Zero.ofOfNat0

def ascending (amounts : List Int) : List Int := amounts.mergeSort

def descending (amounts : List Int) : List Int := amounts.mergeSort fun a b => decide (b ≤ a)

/-- How the parts of a split are sorted. -/
inductive Order where
  | ascending
  | descending
  deriving DecidableEq, Repr

def Order.sort : Order → List Int → List Int
  | .ascending => Amount.ascending
  | .descending => Amount.descending

/-- As many of each denomination as fit, in the order given, and what is left.
Denominations that are not positive are passed over. -/
def greedy : List Int → Int → List Int × Int
  | [], value => ([], value)
  | d :: ds, value =>
    if d ≤ 0 then greedy ds value
    else
      let (parts, rest) := greedy ds (value.fmod d)
      (List.replicate (value.fdiv d).toNat d ++ parts, rest)

/-- The pinned parts, if they are allowed: not more than the amount, and each
zero or a denomination.
mirrors engine/amounts:48-57 -/
def pinned (value : Int) (keys parts : List Int) : Outcome Unit :=
  if parts.isEmpty then .ok ()
  else if value < parts.sum then refuse (.splitExceedsTotal parts.sum value)
  else
    match parts.filter fun a => a ≠ 0 ∧ a ∉ keys with
    | [] => .ok ()
    | bad => refuse (.splitNotInKeyset bad)

/-- Parts of `value`: those of `parts`, and denominations of `keys` for the rest.
mirrors engine/amounts:20-66 -/
def split (value : Int) (keys : List Int) (parts : List Int) (order : Order) : Outcome (List Int) := do
  pinned value keys parts
  let (more, rest) := greedy (descending keys) (value - parts.sum)
  if rest ≠ 0 then refuse (.notDivisible rest)
  else return order.sort (parts ++ more)

/-- Parts of `value` in denominations of `keys`, ascending. -/
def canonical (value : Int) (keys : List Int) : Outcome (List Int) :=
  split value keys [] .ascending

/-- Up to `n` more parts `d`, as long as the total does not pass `limit`. -/
def topUp (d limit : Int) : (n : Nat) → (total : Int) → List Int
  | 0, _ => []
  | n + 1, total => if limit < total + d then [] else d :: topUp d limit n (total + d)

/-- For each denomination, in the order given, the parts that bring the wallet
to `target` of it, as long as the total does not pass `limit`. -/
def topUps (held : List Int) (limit : Int) (target : Int) : List Int → (total : Int) → List Int
  | [], _ => []
  | d :: ds, total =>
    let parts := topUp d limit (target - held.count d).toNat total
    parts ++ topUps held limit target ds (total + parts.sum)

/-- Parts of `value` that top the wallet up, the smallest denomination first;
the rest is split canonically.
mirrors engine/amounts:69-96 -/
def keepAmounts (held : List Int) (value : Int) (keys : List Int) (target : Int) :
    Outcome (List Int) := do
  let wanted := topUps held value target (ascending keys) 0
  let rest := value - wanted.sum
  if rest = 0 then return ascending wanted
  else return ascending (wanted ++ (← canonical rest keys))

end Ecash.Amount
