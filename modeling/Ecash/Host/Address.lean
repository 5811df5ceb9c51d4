import Ecash.Bytes.Hex

/-!
# Addresses in numbers

Four bytes with points between them, or eight groups of hexadecimal digits with
colons between them. In the latter one run of zero groups may be left out, the
last two groups may be written as four bytes, and a zone may follow a percent
sign.
-/
namespace Ecash.Host

def isDigit (c : Char) : Bool := '0' ≤ c && c ≤ '9'

/-! ## Four bytes -/

/-- A byte in at most three digits without leading zeros. -/
def isByte (cs : List Char) : Bool :=
  !cs.isEmpty && cs.length ≤ 3 && cs.all isDigit && (cs == ['0'] || cs.head? != some '0')
    && cs.foldl (fun n c => n * 10 + (c.toNat - 48)) 0 ≤ 255

def isFourBytes (cs : List Char) : Bool :=
  let parts := cs.splitOn '.'
  parts.length == 4 && parts.all isByte

mutual

/-- Digits with `n` more runs to come, each after a single character of any kind. -/
def digitsAndMore : (n : Nat) → List Char → Bool
  | n, [] => n == 0
  | n, c :: cs => (isDigit c && digitsAndMore n cs) || separated n cs

/-- After the character between two runs. -/
def separated : (n : Nat) → List Char → Bool
  | 0, _ => false
  | _ + 1, [] => false
  | n + 1, c :: cs => isDigit c && digitsAndMore n cs

end

/-- Four runs of digits with anything between them: what has to be four bytes. -/
def looksLikeFourBytes : List Char → Bool
  | [] => false
  | c :: cs => isDigit c && digitsAndMore 3 cs

/-! ## Eight groups -/

def isGroup (cs : List Char) : Bool :=
  !cs.isEmpty && cs.length ≤ 4 && cs.all fun c => (Bytes.hexValue? c).isSome

/-- The groups, four bytes at the end counting as two. -/
def groups? (cs : List Char) : Option (List (List Char)) :=
  let parts := cs.splitOn ':'
  match parts.getLast? with
  | some last =>
    if !last.contains '.' then some parts
    else if isFourBytes last then some (parts.dropLast ++ [['0'], ['0']])
    else none
  | none => none

/-- Places, except the first and the last, at which nothing is written. -/
def gaps (parts : List (List Char)) : List Nat :=
  (parts.zipIdx.filter fun (p, i) => p.isEmpty && i != 0 && i + 1 != parts.length).map Prod.snd

/-- One side of a gap: nothing written at its outer end only if nothing else is
on that side. -/
def side? (outer : Option (List Char)) (parts : List (List Char)) : Option (List (List Char)) :=
  if outer = some [] then (if parts.length = 1 then some [] else none) else some parts

def areGroups (parts : List (List Char)) : Bool :=
  match gaps parts with
  | [] => parts.length == 8 && parts.all isGroup
  | [i] =>
    match side? parts.head? (parts.take i), side? parts.getLast? (parts.drop (i + 1)) with
    | some high, some low => high.length + low.length < 8 && high.all isGroup && low.all isGroup
    | _, _ => false
  | _ => false

/-- Eight groups, perhaps with a zone. -/
def isEightGroups (cs : List Char) : Bool :=
  let address := cs.takeWhile (· != '%')
  let zoneFits := match cs.dropWhile (· != '%') with
    | [] => true
    | _ :: zone => !zone.isEmpty && !zone.contains '%'
  zoneFits && !cs.contains '/' && 3 ≤ (address.splitOn ':').length
    && (groups? address).any fun parts => parts.length ≤ 9 && areGroups parts

/-! ## Brackets -/

/-- A form of addresses yet to come: `v`, a version in hexadecimal digits, a point and more. -/
def isFuture : List Char → Bool
  | 'v' :: cs =>
    let isHex (c : Char) : Bool := (Bytes.hexValue? c).isSome
    match cs.takeWhile isHex, cs.dropWhile isHex with
    | _ :: _, '.' :: _ :: _ => true
    | _, _ => false
  | _ => false

/-- The first brackets, if there are any, come in a pair and hold an address. -/
def bracketsFit (cs : List Char) : Bool :=
  if !cs.contains '[' && !cs.contains ']' then true
  else if !cs.contains '[' || !cs.contains ']' then false
  else
    let held := ((cs.dropWhile (· != '[')).drop 1).takeWhile (· != ']')
    isEightGroups held || isFuture held

example : bracketsFit "m.com".toList ∧ bracketsFit "u@[::1]:80".toList ∧ bracketsFit "[v1.x]".toList ∧
    ¬bracketsFit "a[".toList ∧ ¬bracketsFit "[1.2.3.4]".toList := by decide +kernel
example : isFourBytes "127.0.0.1".toList ∧ ¬isFourBytes "127.0.0.01".toList := by decide +kernel
example : looksLikeFourBytes "1234567".toList ∧ ¬looksLikeFourBytes "1.2.3.".toList := by decide +kernel
example : isEightGroups "2001:DB8::1".toList ∧ isEightGroups "::ffff:1.2.3.4".toList ∧
    isEightGroups "fe80::1%eth0".toList ∧ ¬isEightGroups "1::2::3".toList ∧ ¬isEightGroups ":1::2".toList := by
  decide +kernel

end Ecash.Host
