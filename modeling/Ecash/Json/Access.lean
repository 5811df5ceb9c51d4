import Ecash.Failure
import Ecash.Json.Reader
import Ecash.Decimal.Double
import Ecash.Text.Half
import Ecash.Text.Numeral

/-!
# Taking JSON values apart

Records are read from objects member by member. A value of the wrong kind ends
the reading with the failure that fits the way it was used.
-/
namespace Ecash.Json

/-- The value of a text. -/
def read (s : String) : Outcome Json :=
  (parse s).mapError fun
    | .malformed => .notJson
    | .longNumber => .unreadable
    | .tooDeep => .tooDeep

/-- The members of an object. -/
def asObject : Json → Outcome (List (String × Json))
  | .obj members => .ok members
  | _ => .error .notObject

/-- A member that must be there; only objects have members. -/
def required (v : Json) (name : String) : Outcome Json :=
  match v with
  | .obj members =>
    match members.lookup name with
    | some w => .ok w
    | none => .error (.missing name)
  | _ => .error .wrongKind

/-- A whole number: a number without its fraction, a truth value as zero or
one, or a decimal numeral. -/
def toInt : Json → Outcome Int
  | .int n => .ok n
  | .bool b => .ok (if b then 1 else 0)
  | .str s => match Text.parseInt? s with
    | some n => .ok n
    | none => .error .unreadable
  | .float x => match Decimal.truncate? x with
    | some n => .ok n
    | none => .error (if x.isNaN then .unreadable else .tooLarge)
  | .null | .arr _ | .obj _ => .error .wrongKind

/-- The values that a value lists: items, names of members, or characters. -/
def listed : Json → Outcome (List Json)
  | .arr items => .ok items
  | .obj members => .ok (members.map fun m => .str m.1)
  | .str s => .ok ((Text.characters s.toList).map fun c => .str (String.ofList c))
  | .null | .bool _ | .int _ | .float _ => .error .wrongKind

/-- Reads every value that `v` lists. -/
def readList {α : Type} (read : Json → Outcome α) (v : Json) : Outcome (List α) := do
  (← v.listed).mapM read

end Ecash.Json
