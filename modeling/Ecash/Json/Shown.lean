import Ecash.Json
import Ecash.Decimal.Printed
import Ecash.Text.Quoted

/-!
# Values as shown in messages

A text shows as itself; inside an array or an object it is quoted. Items are
divided by a comma and a space.
-/
namespace Ecash.Json

mutual

/-- A value inside a message, texts quoted. -/
def shownInside : Json → String
  | .null => "None"
  | .bool true => "True"
  | .bool false => "False"
  | .int n => toString n
  | .float x => Decimal.text x
  | .str s => Text.quoted s
  | .arr items => "[" ++ ", ".intercalate (shownItems items) ++ "]"
  | .obj ms => "\x7b" ++ ", ".intercalate (shownMembers ms) ++ "\x7d"

def shownItems : List Json → List String
  | [] => []
  | v :: vs => shownInside v :: shownItems vs

def shownMembers : List (String × Json) → List String
  | [] => []
  | (k, v) :: ms => (Text.quoted k ++ ": " ++ shownInside v) :: shownMembers ms

end

/-- A value inside a message. -/
def shown : Json → String
  | .str s => s
  | v => shownInside v

/-- A list of whole numbers inside a message. -/
def shownInts (ns : List Int) : String := "[" ++ ", ".intercalate (ns.map toString) ++ "]"

end Ecash.Json
