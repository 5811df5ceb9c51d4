/-!
# Tables of characters

A property that Unicode gives to characters is listed by its runs: code points
that follow each other and share it. A table is written as numbers in base 26,
the letters standing for the digits; a small letter ends its number.
-/
namespace Ecash.Text.Table

/-- The numbers of a table; `n` is the one begun. -/
def numbers (n : Nat) : List Char → List Nat
  | [] => []
  | c :: cs =>
    if 'a' ≤ c then (26 * n + (c.toNat - 97)) :: numbers 0 cs
    else numbers (26 * n + (c.toNat - 65)) cs

def read (lines : List String) : List Nat := numbers 0 (lines.flatMap String.toList)

/-- Code points that follow each other, and what they share. -/
structure Run where
  first : Nat
  length : Nat
  kind : Nat
  deriving DecidableEq, Repr

def Run.holds (r : Run) (n : Nat) : Bool := r.first ≤ n && n < r.first + r.length

/-- Runs from threes: the distance from the run before, the length, the kind. -/
def runs (pos : Nat) : List Nat → List Run
  | gap :: length :: kind :: rest => ⟨pos + gap, length, kind⟩ :: runs (pos + gap + length) rest
  | _ => []

/-- Runs of one kind, from pairs. -/
def spans (pos : Nat) : List Nat → List Run
  | gap :: length :: rest => ⟨pos + gap, length, 0⟩ :: spans (pos + gap + length) rest
  | _ => []

/-- The kind of a code point. -/
def kind? (rs : List Run) (n : Nat) : Option Nat := (rs.find? (·.holds n)).map Run.kind

/-- A run holds the code point. -/
def holds (rs : List Run) (n : Nat) : Bool := rs.any (·.holds n)

example : read ["bBaCd"] = [1, 26, 55] ∧ kind? (runs 0 (read ["ccbbda"])) 2 = some 1 := by decide +kernel

end Ecash.Text.Table
