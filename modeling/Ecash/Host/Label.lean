import Ecash.Host.Flaw
import Ecash.Host.Letter
import Ecash.Host.Punycode
import Ecash.Text.Composed

/-!
# Labels of host names

A label beyond ASCII is sent as `xn--` and its Punycode. It has to be written
with as few characters as possible, in letters, digits, marks and hyphens; some
further characters may stand beside certain others only, and a label that holds
letters written from right to left must not mix directions.
-/
namespace Ecash.Host.Label

/-! ## Directions -/

def runsLeft : Direction → Bool
  | .rightToLeft | .arabic => true
  | _ => false

/-- May stand in a label that is written from right to left, or from left to right. -/
def fits (leftward : Bool) : Direction → Bool
  | .leftToRight => !leftward
  | .rightToLeft | .arabic | .arabicDigit => leftward
  | .europeanDigit | .separator | .neutral | .joiner | .mark => true

/-- May end such a label, but for marks. -/
def ends (leftward : Bool) : Direction → Bool
  | .europeanDigit => true
  | .leftToRight => !leftward
  | .rightToLeft | .arabic | .arabicDigit => leftward
  | .separator | .neutral | .joiner | .mark => false

/-- The directions of a label agree with each other. -/
def directionsAgree (ds : List Direction) : Bool :=
  if !ds.any (fun d => runsLeft d || d == .arabicDigit) then true
  else
    match ds with
    | [] => true
    | first :: _ =>
      let leftward := runsLeft first
      (leftward || first == .leftToRight) && ds.all (fits leftward)
        && (ds.reverse.dropWhile (· == .mark)).head?.any (ends leftward)
        && !(leftward && ds.contains .arabicDigit && ds.contains .europeanDigit)

/-! ## Characters that need company -/

/-- Ends a syllable of an Indic script. -/
def isVirama (n : Nat) : Bool := Text.Composed.place n == 9

/-- The next visible neighbour connects in one of the ways. -/
def connects (ways : List Joining) (neighbours : List Nat) : Bool :=
  ((neighbours.dropWhile fun n => joining? n = some .transparent).head?.bind joining?).any (ways.contains ·)

def isJapanese (n : Nat) : Bool := japanese.any (Text.Table.holds · n)

/-- The code point may stand behind `before` (nearest first) and in front of
`after`. All but a few may stand anywhere. -/
def fitsBetween (before : List Nat) (n : Nat) (after : List Nat) : Bool :=
  match n with
  | 0x200C => before.head?.any isVirama
      || (connects [.left, .dual] before && connects [.right, .dual] after)
  | 0x200D => before.head?.any isVirama
  | 0xB7 => before.head? == some 0x6C && after.head? == some 0x6C
  | 0x375 => after.head?.any (Text.Table.holds greek)
  | 0x5F3 | 0x5F4 => before.head?.any (Text.Table.holds hebrew)
  | 0x30FB => before.any isJapanese || after.any isJapanese
  | n =>
    if 0x660 ≤ n ∧ n ≤ 0x669 then !(before ++ after).any fun m => 0x6F0 ≤ m && m ≤ 0x6F9
    else if 0x6F0 ≤ n ∧ n ≤ 0x6F9 then !(before ++ after).any fun m => 0x660 ≤ m && m ≤ 0x669
    else true

/-- Joins or parts its neighbours, and shows nothing itself. -/
def isJoiner (n : Nat) : Bool := n == 0x200C || n == 0x200D

/-- The flaw of the first code point that may not stand where it stands. -/
def letterFlaw? (before : List Nat) : List Nat → Option Flaw
  | [] => none
  | n :: after =>
    if (letter? n).isNone then some .letter
    else if !fitsBetween before n after then some (if isJoiner n then .form else .company)
    else letterFlaw? (n :: before) after

/-! ## Labels -/

/-- Hyphens neither at an end nor third and fourth. -/
def hyphensFit (ns : List Nat) : Bool :=
  (ns.drop 2).take 2 != [45, 45] && ns.head? != some 45 && ns.getLast? != some 45

/-- What is wrong with a label as people write it. -/
def flaw? (ns : List Nat) : Option Flaw :=
  if ns.isEmpty || Text.Composed.composed ns != ns || !hyphensFit ns
      || (ns.head?.bind letter?).any Letter.combining then some .form
  else
    (letterFlaw? [] ns).or
      (if directionsAgree ((ns.filterMap letter?).map Letter.direction) then none else some .direction)

def lead : List Nat := "xn--".toList.map Char.toNat

def lowerAscii (n : Nat) : Nat := if 65 ≤ n ∧ n ≤ 90 then n + 32 else n

/-- What is wrong with an ASCII label, or with the one that it stands for. -/
def encodedFlaw? (ns : List Nat) : Option Flaw :=
  let ns := ns.map lowerAscii
  if !lead.isPrefixOf ns then flaw? ns
  else
    let tail := ns.drop lead.length
    if tail.getLast?.all (· == 45) then some .form
    else
      match Punycode.decode? tail with
      | some ms => flaw? ms
      | none => some .form

/-- The label as it is sent, in at most 63 characters. -/
def sent? (ns : List Nat) : Option (List Char) :=
  let written : Option (List Char) :=
    if ns.all (· < 128) then (if encodedFlaw? ns = none then some (ns.map Char.ofNat) else none)
    else if flaw? ns = none then some ((lead.map Char.ofNat) ++ Punycode.encode ns)
    else none
  written.filter (·.length ≤ 63)

/-- Points that divide labels. -/
def isDot (n : Nat) : Bool := n == 0x2E || n == 0x3002 || n == 0xFF0E || n == 0xFF61

/-- The labels of a name, and whether a point follows the last one. -/
def ofName (ns : List Nat) : List (List Nat) × Bool :=
  let labels := ns.splitOnP isDot
  if labels.getLast? = some [] then (labels.dropLast, true) else (labels, false)

/-- A name of several labels as it is sent. -/
def nameSent? (ns : List Nat) : Option (List Char) := do
  let (labels, closed) := ofName ns
  let sent ← labels.mapM sent?
  let name := ['.'].intercalate (if closed then sent ++ [[]] else sent)
  if sent.isEmpty || (if closed then 254 else 253) < name.length then none else some name

/-- What is wrong with the first bad label of a name in ASCII. -/
def nameFlaw? (ns : List Nat) : Option Flaw := (ofName ns).1.findSome? encodedFlaw?

end Ecash.Host.Label
