import Ecash.Bytes.Hex
import Ecash.Yaml.Time

/-!
# Plain scalars

A scalar without quotes stands for a truth value, a number, nothing, a time or,
if its form fits none of these, its text. The forms are those of YAML 1.1:
`yes` and `off` are truth values, `017` is octal, `1:30` counts in sixties, and
a number with an exponent needs a point and a sign. What a scalar stands for is
told by a tag.
-/
namespace Ecash.Yaml

open Decimal (isDigit)

/-- What the tags of the language itself begin with. -/
def coreLead : String := "tag:yaml.org,2002:"

/-- A tag of the language itself. -/
def core (name : String) : String := coreLead ++ name

/-- The name of a tag of the language itself. -/
def coreName? (tag : String) : Option String :=
  if coreLead.toList.isPrefixOf tag.toList then some (String.ofList (tag.toList.drop coreLead.length)) else none

/-- A sign and the rest. -/
def cutSign : List Char → Bool × List Char
  | '-' :: cs => (true, cs)
  | '+' :: cs => (false, cs)
  | cs => (false, cs)

def isGrouped (digit : Char → Bool) (cs : List Char) : Bool := cs.all fun c => digit c || c == '_'

/-- At least one digit or underscore. -/
def isRun (digit : Char → Bool) (cs : List Char) : Bool := !cs.isEmpty && isGrouped digit cs

/-- A digit and then digits and underscores. -/
def isCounted : List Char → Bool
  | c :: cs => isDigit c && isGrouped isDigit cs
  | [] => false

/-! ## Numbers -/

/-- One or two digits below sixty. -/
def isSixtieth : List Char → Bool
  | [c] => isDigit c
  | [c, d] => '0' ≤ c && c ≤ '5' && isDigit d
  | _ => false

/-- A first place and at least one more after a colon. -/
def isSixties (cs : List Char) : Bool :=
  match cs.splitOn ':' with
  | first :: place :: more => isCounted first && (place :: more).all isSixtieth
  | _ => false

/-- A whole number without a sign. -/
def isMagnitude : List Char → Bool
  | ['0'] => true
  | '0' :: 'b' :: ds => isRun (fun c => c == '0' || c == '1') ds
  | '0' :: 'x' :: ds => isRun (fun c => (Bytes.hexValue? c).isSome) ds
  | '0' :: ds => isRun (fun c => '0' ≤ c && c ≤ '7') ds
  | ds => isCounted ds || isSixties ds

def isWhole (cs : List Char) : Bool := isMagnitude (cutSign cs).2

/-- An exponent with its sign, or nothing. -/
def isExponent : List Char → Bool
  | [] => true
  | e :: sign :: c :: ds => (e == 'e' || e == 'E') && (sign == '+' || sign == '-') && (c :: ds).all isDigit
  | _ => false

/-- Digits, a point, more digits and perhaps an exponent; without digits before
the point there is no sign. Digits before the point may count in sixties, and
then there is no exponent. -/
def isPointed (cs : List Char) : Bool :=
  let body := (cutSign cs).2
  let first := body.takeWhile (· != '.')
  match body.dropWhile (· != '.') with
  | [] => false
  | _ :: rest =>
    let tail := rest.dropWhile fun c => isDigit c || c == '_'
    if first.isEmpty then cs.head? == some '.' && rest.head?.any isDigit && isExponent tail
    else (isCounted first && isExponent tail) || (isSixties first && tail.isEmpty)

/-- An infinite number, or what is no number. -/
def isBoundless (cs : List Char) : Bool :=
  [".nan", ".NaN", ".NAN"].contains (String.ofList cs)
    || [".inf", ".Inf", ".INF"].contains (String.ofList (cutSign cs).2)

/-! ## Resolution -/

def boolWords : List String :=
  ["yes", "Yes", "YES", "no", "No", "NO", "true", "True", "TRUE", "false", "False", "FALSE", "on", "On", "ON",
   "off", "Off", "OFF"]

def nullWords : List String := ["~", "null", "Null", "NULL"]

/-- A time, the parts of a mere date in full. -/
def isTime (cs : List Char) : Bool :=
  (Time.read? cs).any fun t => t.clock.isSome || cs.length == 10

/-- A form does not see one line break at the end. -/
def unended (cs : List Char) : List Char := if cs.getLast? = some '\n' then cs.dropLast else cs

/-- What a plain scalar stands for. -/
def implicitName (s : String) : String :=
  let cs := unended s.toList
  let word := String.ofList cs
  if s = "" ∨ nullWords.contains word then "null"
  else if boolWords.contains word then "bool"
  else if isPointed cs || isBoundless cs then "float"
  else if isWhole cs then "int"
  else if isTime cs then "timestamp"
  else if word = "<<" then "merge"
  else if word = "=" then "value"
  else if word = "!" ∨ word = "&" ∨ word = "*" then "yaml"
  else "str"

/-- The tag of a plain scalar. -/
def implicitTag (s : String) : String := core (implicitName s)

example : ["0x1F", "017", "1:30", "-0b_", "08"].map implicitName = ["int", "int", "int", "int", "str"] := by
  decide +kernel
example : ["1e5", "-.5", ".5", "1.", "1.5e+1", "1:30.5", "-.inf"].map implicitName =
    ["str", "str", "float", "float", "float", "float", "float"] := by decide +kernel
example : ["2024-01-02", "2024-1-2", "2024-1-2 3:04:05", "", "Off", "<<"].map implicitName =
    ["timestamp", "str", "timestamp", "null", "bool", "merge"] := by decide +kernel

end Ecash.Yaml
