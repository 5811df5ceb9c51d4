import Ecash.Bytes.Unicode
import Ecash.Decimal.Read
import Ecash.Failure
import Ecash.Settings.Given
import Ecash.Settings.Numeral

/-!
# Checking settings

A settings section is read member by member, and everything that is wrong with
it is reported together: a problem names the place, with dots between the
sections, and what the matter is there.
-/
namespace Ecash.Settings

-- Powers are core's own, whatever else is imported.
attribute [local instance (high)] instPowNat

/-- What is wrong with a value. -/
inductive Problem where
  | notText
  | notUnicode
  | notBool
  | unreadableBool
  | notWhole
  | unreadableWhole
  | longWhole
  | fractional
  | notFinite
  | notNumber
  | unreadableNumber
  | tooSmall
  | unknownChoice
  | notSection
  | unknownMember
  | notKey
  | badFile
  deriving DecidableEq, Repr

/-- Machine-readable name of the problem. -/
def Problem.code : Problem → String
  | notText => "string_type"
  | notUnicode => "string_unicode"
  | notBool => "bool_type"
  | unreadableBool => "bool_parsing"
  | notWhole => "int_type"
  | unreadableWhole => "int_parsing"
  | longWhole => "int_parsing_size"
  | fractional => "int_from_float"
  | notFinite => "finite_number"
  | notNumber => "float_type"
  | unreadableNumber => "float_parsing"
  | tooSmall => "greater_than_equal"
  | unknownChoice => "enum"
  | notSection => "model_type"
  | unknownMember => "extra_forbidden"
  | notKey => "invalid_key"
  | badFile => "value_error"

/-- The way to a value through sections and members. -/
abbrev Place := List String

/-- A value, or all its problems with their places. -/
inductive Checked (α : Type) where
  | valid (a : α)
  | invalid (problems : List (Place × Problem))

namespace Checked

variable {α β : Type}

/-- Applies a checked function; the problems of both sides add up. -/
def apply (f : Checked (α → β)) (x : Checked α) : Checked β :=
  match f, x with
  | .valid f, .valid a => .valid (f a)
  | .valid _, .invalid ps => .invalid ps
  | .invalid ps, .valid _ => .invalid ps
  | .invalid ps, .invalid qs => .invalid (ps ++ qs)

instance : Applicative Checked where
  pure := .valid
  seq f x := f.apply (x ())

/-- The same, one section further in. -/
def inside (name : String) : Checked α → Checked α
  | .valid a => .valid a
  | .invalid ps => .invalid (ps.map fun p => (name :: p.1, p.2))

/-- The value, or the failure that lists the problems in order of their places. -/
def toOutcome : Checked α → Outcome α
  | .valid a => .ok a
  | .invalid ps =>
    .error (.invalid ((ps.map fun p => (".".intercalate p.1, p.2.code)).mergeSort fun p q =>
      decide (p.1 < q.1) || (p.1 == q.1 && decide (p.2 ≤ q.2))))

end Checked

/-! ## Values -/

/-- How a member's value is read. -/
abbrev Read (α : Type) := Given → Except Problem α

/-- Reads a text without halves of pairs. -/
def ofText {α : Type} (read : List Char → Except Problem α) (s : String) : Except Problem α :=
  if Text.hasHalf s then .error .notUnicode else read s.toList

/-- Reads the text of bytes. -/
def ofBytes {α : Type} (otherwise : Problem) (read : List Char → Except Problem α) (bs : Bytes) :
    Except Problem α :=
  match Bytes.text? bs with
  | some s => read s.toList
  | none => .error otherwise

def text : Read String
  | .text s => .ok s
  | .bytes bs => ofBytes .notUnicode (fun cs => .ok (String.ofList cs)) bs
  | _ => .error .notText

/-- The value, or a problem. -/
def orElse {α : Type} (p : Problem) : Option α → Except Problem α
  | some a => .ok a
  | none => .error p

/-- A word for yes or no. -/
def boolWord (cs : List Char) : Except Problem Bool :=
  match String.ofList (cs.map Char.toLower) with
  | "0" | "off" | "f" | "false" | "n" | "no" => .ok false
  | "1" | "on" | "t" | "true" | "y" | "yes" => .ok true
  | _ => .error .unreadableBool

/-- Yes for one, no for zero. -/
def boolOfInt (n : Int) : Except Problem Bool :=
  if n = 0 then .ok false
  else if n = 1 then .ok true
  else .error .unreadableBool

/-- The whole number fits into 64 bits with a sign. -/
def isWord (n : Int) : Bool := -2 ^ (63 : Nat) ≤ n && n < 2 ^ (63 : Nat)

/-- The whole number that a double is; the ends of the range of 64 bits are out of it. -/
def wholeOf (x : Float) : Except Problem Int :=
  match Decimal.whole? x with
  | some n => if -2 ^ (63 : Nat) < n ∧ n < 2 ^ (63 : Nat) then .ok n else .error .longWhole
  | none => .error (if (Decimal.parts? x).isNone then .notFinite else .fractional)

def bool : Read Bool
  | .bool b => .ok b
  | .int n => if isWord n then boolOfInt n else .error .notBool
  | .float x => match wholeOf x with
    | .ok n => boolOfInt n
    | .error _ => .error .notBool
  | .text s => ofText boolWord s
  | .bytes bs => ofBytes .unreadableBool boolWord bs
  | _ => .error .notBool

def wholeText (cs : List Char) : Except Problem Int :=
  match Numeral.whole cs with
  | .read n => .ok n
  | .long => .error .longWhole
  | .malformed => .error .unreadableWhole

def whole : Read Int
  | .int n => .ok n
  | .bool b => .ok (if b then 1 else 0)
  | .float x => wholeOf x
  | .text s => ofText wholeText s
  | .bytes bs => ofBytes .unreadableWhole wholeText bs
  | _ => .error .notWhole

def numberText (cs : List Char) : Except Problem Float := orElse .unreadableNumber (Numeral.pointed? cs)

def number : Read Float
  | .float x => .ok x
  | .int n => orElse .notNumber (Decimal.ofInt? n)
  | .bool b => .ok (if b then 1.0 else 0.0)
  | .text s => ofText numberText s
  | .bytes bs => ofBytes .unreadableNumber numberText bs
  | _ => .error .notNumber

/-- A whole number that is at least `least`. -/
def atLeast (least : Nat) : Read Nat := fun v => do
  let n ← whole v
  if n < least then .error .tooSmall else .ok n.toNat

/-- A number that is not negative. -/
def notNegative : Read Float := fun v => do
  let x ← number v
  if 0.0 ≤ x then .ok x else .error .tooSmall

/-- One of several choices, by its name. -/
def choice {α : Type} (name : α → String) (choices : List α) : Read α :=
  let find (cs : List Char) : Except Problem α :=
    orElse .unknownChoice (choices.find? fun a => name a = String.ofList cs)
  fun
    | .text s => ofText find s
    | .bytes bs => ofBytes .unknownChoice find bs
    | _ => .error .unknownChoice

/-! ## Members -/

/-- A member, or its default when the section has none. -/
def member {α : Type} (ms : Members) (name : String) (read : Read α) (default : α) : Checked α :=
  match ms.lookup name with
  | none => .valid default
  | some v =>
    match read v with
    | .ok a => .valid a
    | .error p => .invalid [([name], p)]

/-- A section within this one, read from no members when it is missing. -/
def inner {α : Type} (ms : Members) (name : String) (read : Members → Checked α) : Checked α :=
  match ms.lookup name with
  | none => (read []).inside name
  | some (.group sub _) => (read sub).inside name
  | some _ => .invalid [([name], .notSection)]

/-- What is read from the members, if there are none but those named. The name of
a member is a text without halves of pairs, or nothing else is looked at. -/
def closed {α : Type} (ms : Members) (names : List String) (c : Checked α) : Checked α :=
  let extra := (ms.map Prod.fst).filter (· ∉ names)
  if extra.any Text.hasHalf then .invalid [([], .notUnicode)]
  else if extra.isEmpty then c
  else c <* (.invalid (extra.map fun name => ([name], .unknownMember)) : Checked Unit)

end Ecash.Settings
