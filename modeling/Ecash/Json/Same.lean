import Ecash.Json
import Ecash.Decimal.Double

/-!
# Values that count as one

A lookup does not tell a truth value from the number one or zero, nor a whole
number from the double with its value, and the order of members does not matter.
`key` writes a value in the one form that all its equals share.
-/
namespace Ecash.Json

mutual

/-- The form shared by all values that count as one. -/
def key : Json → Json
  | .bool b => .int (if b then 1 else 0)
  | .float x => match Decimal.whole? x with
    | some n => .int n
    | none => .float x
  | .arr vs => .arr (keys vs)
  | .obj ms => .obj ((memberKeys ms).mergeSort fun a b => decide (a.1 ≤ b.1))
  | v => v

def keys : List Json → List Json
  | [] => []
  | v :: vs => key v :: keys vs

def memberKeys : List (String × Json) → List (String × Json)
  | [] => []
  | (name, v) :: ms => (name, key v) :: memberKeys ms

end

/-- The two values count as one. -/
def same (v w : Json) : Bool := v.key = w.key

/-- The entry of a table whose key counts as `k`. -/
def find? {α : Type} (k : Json) (table : List (Json × α)) : Option α :=
  (table.find? fun e => e.1.same k).map Prod.snd

theorem same_refl (v : Json) : same v v = true := by simp [same]

theorem same_symm {v w : Json} (h : same v w = true) : same w v = true := by
  simp only [same, decide_eq_true_eq] at h ⊢; exact h.symm

theorem same_trans {u v w : Json} (h : same u v = true) (k : same v w = true) : same u w = true := by
  simp only [same, decide_eq_true_eq] at h k ⊢; exact h.trans k

/-- Texts count as one only if they are equal. -/
theorem same_str (s t : String) : same (.str s) (.str t) = decide (s = t) := by simp [same, key]

end Ecash.Json
