/-!
# Punycode

A text in letters, digits and hyphens: its ASCII characters come first, then a
hyphen, then numbers that tell where the others go. A number counts the steps
of a walk over all places and code points since the last insertion. It is
written in base 36, least digit first, and ends with the first digit below a
threshold that follows the size of the numbers so far.
-/
namespace Ecash.Host.Punycode

def digit (d : Nat) : Char := if d < 26 then Char.ofNat (97 + d) else Char.ofNat (22 + d)

/-- The value of a digit; letters may have either case. -/
def digitValue? (n : Nat) : Option Nat :=
  if 97 ≤ n ∧ n ≤ 122 then some (n - 97)
  else if 65 ≤ n ∧ n ≤ 90 then some (n - 65)
  else if 48 ≤ n ∧ n ≤ 57 then some (n - 22)
  else none

theorem digitValue?_digit : ∀ d < 36, digitValue? (digit d).toNat = some d := by decide

/-- The threshold of the digit at a place, counted in steps of 36 from 36. -/
def threshold (place bias : Nat) : Nat := max 1 (min 26 (place - bias))

/-! ## Bias -/

def halvings (delta steps : Nat) : Nat × Nat :=
  if 455 < delta then halvings (delta / 35) (steps + 36) else (delta, steps)
termination_by delta
decreasing_by exact Nat.div_lt_self (by omega) (by omega)

/-- The bias after a number, when the text has `size` characters. -/
def adapt (delta size : Nat) (first : Bool) : Nat :=
  let d := if first then delta / 700 else delta / 2
  let (d, steps) := halvings (d + d / size) 0
  steps + 36 * d / (d + 38)

/-! ## Writing -/

/-- The digits of a number. -/
def writeNumber (bias place n : Nat) : List Char :=
  let t := threshold place bias
  if n < t then [digit n]
  else digit (t + (n - t) % (36 - t)) :: writeNumber bias (place + 36) ((n - t) / (36 - t))
termination_by n
decreasing_by
  have h : 1 ≤ threshold place bias := by unfold threshold; omega
  have := Nat.div_le_self (n - threshold place bias) (36 - threshold place bias)
  omega

/-- What has been written: the digits, the steps since the last insertion, the
bias, and the number of characters that are placed. -/
structure Written where
  digits : List Char
  delta : Nat
  bias : Nat
  size : Nat

/-- Steps past one character while all code points `n` are inserted. -/
def Written.pass (ascii n : Nat) (w : Written) (m : Nat) : Written :=
  if m < n then { w with delta := w.delta + 1 }
  else if m = n then
    ⟨w.digits ++ writeNumber w.bias 36 w.delta, 0, adapt w.delta (w.size + 1) (w.size = ascii), w.size + 1⟩
  else w

/-- Inserts the code points of an ascending list; all below `next` are done. -/
def writeAll (ns : List Nat) (ascii : Nat) : List Nat → (next : Nat) → Written → List Char
  | [], _, w => w.digits
  | n :: more, next, w =>
    let w := ns.foldl (Written.pass ascii n) { w with delta := w.delta + (n - next) * (w.size + 1) }
    writeAll ns ascii more (n + 1) { w with delta := w.delta + 1 }

/-- Writes a text. -/
def encode (ns : List Nat) : List Char :=
  let ascii := ns.filter (· < 128)
  let others := ((ns.filter (128 ≤ ·)).mergeSort).eraseDups
  let size := ascii.length
  ascii.map Char.ofNat ++ (if ascii.isEmpty then [] else ['-']) ++ writeAll ns size others 128 ⟨[], 0, 72, size⟩

/-! ## Reading -/

/-- The first number and what follows it; none if it has no end. -/
def readNumber? (bias place weight sum : Nat) : List Nat → Option (Nat × List Nat)
  | [] => none
  | c :: cs =>
    match digitValue? c with
    | none => none
    | some d =>
      let t := threshold place bias
      if d < t then some (sum + d * weight, cs)
      else readNumber? bias (place + 36) (weight * (36 - t)) (sum + d * weight) cs

/-- Inserts characters into a text; `fuel` bounds their number. -/
def insertAll? : (fuel : Nat) → (text : List Nat) → (point pos bias : Nat) → (first : Bool) → List Nat →
    Option (List Nat)
  | _, text, _, _, _, _, [] => some text
  | 0, _, _, _, _, _, _ => none
  | fuel + 1, text, point, pos, bias, first, cs =>
    match readNumber? bias 36 1 0 cs with
    | none => none
    | some (delta, rest) =>
      let size := text.length + 1
      let point := point + (pos + delta) / size
      let pos := (pos + delta) % size
      if 0x10FFFF < point then none
      else
        insertAll? fuel (text.take pos ++ point :: text.drop pos) point (pos + 1) (adapt delta size first) false rest

/-- Reads a text. -/
def decode? (cs : List Nat) : Option (List Nat) :=
  let tail := (cs.reverse.takeWhile (· ≠ 45)).reverse
  insertAll? tail.length (cs.take (cs.length - tail.length - 1)) 128 0 72 true tail

example : encode ("bücher".toList.map Char.toNat) = "bcher-kva".toList := by decide +kernel
example : (decode? ("mnchen-3ya".toList.map Char.toNat)).map (·.map Char.ofNat) = some "münchen".toList := by
  decide +kernel

end Ecash.Host.Punycode
