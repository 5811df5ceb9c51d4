import Ecash.Json
import Ecash.Yaml.Value

/-!
# Values given for settings

Settings come as JSON, as YAML and as texts of the environment. Whatever no
setting accepts is not told apart.
-/
namespace Ecash.Settings

/-- A value that somebody gives for a setting or for a section of settings. -/
inductive Given where
  | null
  | bool (b : Bool)
  | int (n : Int)
  | float (x : Float)
  | text (s : String)
  | bytes (bs : Bytes)
  /-- A table, its members named by texts, and whether other keys are mixed in. -/
  | group (members : List (String × Given)) (mixed : Bool)
  /-- A list or the like, perhaps without items. -/
  | other (empty : Bool)

/-- The members of a section, in order. -/
abbrev Members := List (String × Given)

/-- Sets a member: in place when the name is there, else at the end. -/
def put (name : String) (v : Given) : Members → Members
  | [] => [(name, v)]
  | (k, w) :: rest => if k = name then (k, v) :: rest else (k, w) :: put name v rest

namespace Given

mutual

def ofJson : Json → Given
  | .null => null
  | .bool b => bool b
  | .int n => int n
  | .float x => float x
  | .str s => text s
  | .arr vs => other vs.isEmpty
  | .obj ms => group (ofMembers ms) false

def ofMembers : List (String × Json) → Members
  | [] => []
  | (name, v) :: ms => (name, ofJson v) :: ofMembers ms

end

def ofAtom : Yaml.Atom → Given
  | .null => null
  | .bool b => bool b
  | .int n => int n
  | .float x => float x
  | .text s => text s
  | .bytes bs => bytes bs
  | .time _ => other false

mutual

def ofYaml : Yaml.Value → Given
  | .atom a => ofAtom a
  | .table es => group (ofEntries es) (isMixed es)
  | .other => other false

/-- The entries whose keys are texts. -/
def ofEntries : List (Yaml.Atom × Yaml.Value) → Members
  | [] => []
  | (.text name, v) :: es => (name, ofYaml v) :: ofEntries es
  | _ :: es => ofEntries es

/-- Not all keys are texts. -/
def isMixed : List (Yaml.Atom × Yaml.Value) → Bool
  | [] => false
  | (.text _, _) :: es => isMixed es
  | _ :: _ => true

end

/-- Nothing, no, zero and what is empty count as absent. -/
def truthy : Given → Bool
  | null => false
  | bool b => b
  | int n => n != 0
  | float x => x != 0
  | text s => s != ""
  | bytes bs => !bs.isEmpty
  | group ms mixed => mixed || !ms.isEmpty
  | other empty => !empty

end Given

end Ecash.Settings
