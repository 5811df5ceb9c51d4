import Ecash.Json
import Ecash.Decimal.Read
import Ecash.Text.Half
import Ecash.Text.Numeral

/-!
# Reading JSON texts

The grammar is JSON with the three names `NaN`, `Infinity` and `-Infinity` as
numbers. A number with neither point nor exponent is an integer; a number too
large for a double is infinite. Of several members with one name the last
value counts, at the place of the first. Texts are kept texts, so an escape may
stand for half a pair.
-/
namespace Ecash.Json

/-- Why a text is not read. -/
inductive ReadError where
  /-- It is no JSON. -/
  | malformed
  /-- An integer has more digits than numerals may have. -/
  | longNumber
  /-- Arrays and objects are nested too deeply. -/
  | tooDeep
  deriving DecidableEq, Repr

/-- How deeply arrays and objects may be nested. -/
def maxDepth : Nat := 980

/-- Sets a member: in place when the name is there, else at the end. -/
def setMember (name : String) (v : Json) : List (String × Json) → List (String × Json)
  | [] => [(name, v)]
  | (k, w) :: rest => if k = name then (k, v) :: rest else (k, w) :: setMember name v rest

namespace Reader

/-- Blanks between tokens. -/
def isBlank (c : Char) : Bool := c == ' ' || c == '\t' || c == '\n' || c == '\r'

def skipBlanks (cs : List Char) : List Char := cs.dropWhile isBlank

/-- The value of four hexadecimal digits. -/
def hex4? (a b c d : Char) : Option Nat :=
  let digit? (x : Char) : Option Nat :=
    if '0' ≤ x ∧ x ≤ '9' then some (x.toNat - 48)
    else if 'a' ≤ x ∧ x ≤ 'f' then some (x.toNat - 87)
    else if 'A' ≤ x ∧ x ≤ 'F' then some (x.toNat - 55)
    else none
  do return (((← digit? a) * 16 + (← digit? b)) * 16 + (← digit? c)) * 16 + (← digit? d)

/-- The character that a one-letter escape stands for. -/
def unescape? : Char → Option Char
  | '"' => some '"'
  | '\\' => some '\\'
  | '/' => some '/'
  | 'b' => some (Char.ofNat 8)
  | 'f' => some (Char.ofNat 12)
  | 'n' => some '\n'
  | 'r' => some '\r'
  | 't' => some '\t'
  | _ => none

/-- Adds the characters of a code point to those read so far. -/
def push (n : Nat) (done : List Char) : List Char := (Text.keep n).reverse ++ done

/-- The rest of a string after its opening quote; `done` holds the characters
read so far, the last one first. -/
def string (done : List Char) : List Char → Except ReadError (String × List Char)
  | '"' :: rest => .ok (String.ofList done.reverse, rest)
  | '\\' :: 'u' :: a :: b :: c :: d :: '\\' :: 'u' :: e :: f :: g :: h :: rest =>
    match hex4? a b c d, hex4? e f g h with
    | none, _ => .error .malformed
    | some n, m =>
      if Text.isHigh n && m.any Text.isLow then
        string (push (Text.joinHalves n (m.getD 0)) done) rest
      else string (push n done) ('\\' :: 'u' :: e :: f :: g :: h :: rest)
  | '\\' :: 'u' :: a :: b :: c :: d :: rest =>
    match hex4? a b c d with
    | none => .error .malformed
    | some n => string (push n done) rest
  | '\\' :: c :: rest =>
    match unescape? c with
    | none => .error .malformed
    | some x => string (x :: done) rest
  | c :: rest => if c.toNat < 0x20 ∨ c = '\\' then .error .malformed else string (c :: done) rest
  | [] => .error .malformed
termination_by cs => cs.length

open Decimal (isDigit)

/-- The digits after a decimal point, if one with digits follows. -/
def fraction (cs : List Char) : List Char × List Char :=
  match cs with
  | '.' :: rest =>
    let ds := rest.takeWhile isDigit
    if ds.isEmpty then ([], cs) else (ds, rest.dropWhile isDigit)
  | _ => ([], cs)

/-- The exponent, if one with digits follows. -/
def exponent? (cs : List Char) : Option Int × List Char :=
  let after (negative : Bool) (rest : List Char) : Option Int × List Char :=
    let ds := rest.takeWhile isDigit
    if ds.isEmpty then (none, cs)
    else
      let n := Decimal.ofDigits ds
      (some (if negative then -(n : Int) else n), rest.dropWhile isDigit)
  match cs with
  | 'e' :: '-' :: rest | 'E' :: '-' :: rest => after true rest
  | 'e' :: '+' :: rest | 'E' :: '+' :: rest => after false rest
  | 'e' :: rest | 'E' :: rest => after false rest
  | _ => (none, cs)

/-- A number whose sign has been read. -/
def unsigned (negative : Bool) (cs : List Char) : Except ReadError (Json × List Char) :=
  let whole := match cs with
    | '0' :: _ => ['0']
    | _ => cs.takeWhile isDigit
  if whole.isEmpty then .error .malformed
  else
    let (frac, rest) := fraction (cs.drop whole.length)
    let (exp?, rest) := exponent? rest
    if frac.isEmpty ∧ exp?.isNone then
      let n := Decimal.ofDigits whole
      if Text.maxDecimalDigits < whole.length then .error .longNumber
      else .ok (.int (if negative then -(n : Int) else n), rest)
    else
      let digits := whole ++ frac
      let e := Decimal.clampExponent digits.length ((exp?.getD 0) - frac.length)
      let x := Decimal.ofScientific? negative (Decimal.ofDigits digits) e
      .ok (.float (x.getD (Decimal.infinite negative)), rest)

/-- A name or a number. -/
def word : List Char → Except ReadError (Json × List Char)
  | 'n' :: 'u' :: 'l' :: 'l' :: rest => .ok (.null, rest)
  | 't' :: 'r' :: 'u' :: 'e' :: rest => .ok (.bool true, rest)
  | 'f' :: 'a' :: 'l' :: 's' :: 'e' :: rest => .ok (.bool false, rest)
  | 'N' :: 'a' :: 'N' :: rest => .ok (.float (0.0 / 0.0), rest)
  | 'I' :: 'n' :: 'f' :: 'i' :: 'n' :: 'i' :: 't' :: 'y' :: rest =>
    .ok (.float (Decimal.infinite false), rest)
  | '-' :: 'I' :: 'n' :: 'f' :: 'i' :: 'n' :: 'i' :: 't' :: 'y' :: rest =>
    .ok (.float (Decimal.infinite true), rest)
  | '-' :: rest => unsigned true rest
  | cs => unsigned false cs

mutual

/-- A value inside of which `depth` more levels of nesting may follow; `fuel`
bounds the number of values and members still to be read. -/
def value (depth : Nat) : (fuel : Nat) → List Char → Except ReadError (Json × List Char)
  | 0, _ => .error .malformed
  | fuel + 1, cs =>
    match depth, cs with
    | _, '"' :: rest => do
      let (s, rest) ← string [] rest
      return (.str s, rest)
    | 0, '[' :: _ | 0, '\x7b' :: _ => .error .tooDeep
    | depth + 1, '[' :: rest =>
      match skipBlanks rest with
      | ']' :: rest => .ok (.arr [], rest)
      | rest => do
        let (vs, rest) ← items depth fuel rest
        return (.arr vs, rest)
    | depth + 1, '\x7b' :: rest =>
      match skipBlanks rest with
      | '\x7d' :: rest => .ok (.obj [], rest)
      | rest => do
        let (ms, rest) ← members depth fuel [] rest
        return (.obj ms, rest)
    | _, cs => word cs

/-- The items of an array up to its closing bracket. -/
def items (depth : Nat) : (fuel : Nat) → List Char → Except ReadError (List Json × List Char)
  | 0, _ => .error .malformed
  | fuel + 1, cs => do
    let (v, rest) ← value depth fuel cs
    match skipBlanks rest with
    | ']' :: rest => return ([v], rest)
    | ',' :: rest =>
      let (vs, rest) ← items depth fuel (skipBlanks rest)
      return (v :: vs, rest)
    | _ => .error .malformed

/-- The members of an object up to its closing brace, added to `done`. -/
def members (depth : Nat) : (fuel : Nat) → List (String × Json) → List Char →
    Except ReadError (List (String × Json) × List Char)
  | 0, _, _ => .error .malformed
  | fuel + 1, done, cs =>
    match cs with
    | '"' :: rest => do
      let (name, rest) ← string [] rest
      match skipBlanks rest with
      | ':' :: rest =>
        let (v, rest) ← value depth fuel (skipBlanks rest)
        match skipBlanks rest with
        | '\x7d' :: rest => return (setMember name v done, rest)
        | ',' :: rest => members depth fuel (setMember name v done) (skipBlanks rest)
        | _ => .error .malformed
      | _ => .error .malformed
    | _ => .error .malformed

end

end Reader

/-- The value that a whole text stands for. -/
def parse (s : String) : Except ReadError Json := do
  let cs := s.toList
  let (v, rest) ← Reader.value maxDepth (2 * cs.length + 2) (Reader.skipBlanks cs)
  if (Reader.skipBlanks rest).isEmpty then return v else .error .malformed

end Ecash.Json
