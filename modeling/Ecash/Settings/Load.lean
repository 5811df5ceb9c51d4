import Ecash.Json.Access
import Ecash.Settings.Wallet
import Ecash.Text.Lower

/-!
# Where settings come from

Settings given by the caller win over the environment, the environment wins
over a settings file, and the file wins over the defaults. Sections are merged
member by member. A variable of the environment names a member after a prefix,
and a member of a section after the section and two underscores. Case does not
matter, except for the sections that a file names.
-/
namespace Ecash.Settings

/-! ## The environment -/

/-- Variables with names in lower case, of each the last value. -/
structure Environment where
  settings : List (String × String)
  deriving DecidableEq, Repr

namespace Environment

/-- Sets a variable, at the place where its name came first. -/
def set (name value : String) : List (String × String) → List (String × String)
  | [] => [(name, value)]
  | (k, w) :: rest => if k = name then (k, value) :: rest else (k, w) :: set name value rest

/-- A half of a pair that stands for a byte outside of ASCII. -/
def isByteHalf (n : Nat) : Bool := 0xDC80 ≤ n && n ≤ 0xDCFF

/-- Adds a variable. In an environment an equals sign ends a name, and a null
character ends a value. -/
def add (e : Environment) (name value : String) : Outcome Environment :=
  let ns := Text.points name.toList
  let all := ns ++ Text.points value.toList
  if all.any fun n => Text.isHalf n && !isByteHalf n then .error .notEncodable
  else if ns.contains '='.toNat || all.contains 0 then .error .unreadable
  else .ok ⟨set (Text.lowered name) value e.settings⟩

def ofList (vs : List (String × String)) : Outcome Environment :=
  vs.foldlM (fun e (name, value) => e.add name value) ⟨[]⟩

/-- What all names of this library's variables begin with. -/
def lead : String := "ecash_"

def get? (e : Environment) (name : String) : Option String := e.settings.lookup (lead ++ name)

/-- The members among `names` that have a variable, as texts. -/
def texts (e : Environment) (path : String) (names : List String) : Members :=
  names.filterMap fun name => (e.get? (path ++ name)).map fun value => (name, .text value)

/-- The members of a section of settings. -/
def sectionTexts (e : Environment) (name : String) (names : List String) : Members :=
  e.texts (name ++ "__") names

/-- What follows `start` in a text that begins with it. -/
def after? : (start : List Char) → List Char → Option (List Char)
  | [], cs => some cs
  | a :: start, c :: cs => if a = c then after? start cs else none
  | _ :: _, [] => none

/-- The parts of a name between pairs of underscores; `part` holds the
characters of the first part so far, the last one first. -/
def parts (part : List Char) : List Char → List String
  | '_' :: '_' :: cs => String.ofList part.reverse :: parts [] cs
  | c :: cs => parts (c :: part) cs
  | [] => [String.ofList part.reverse]

/-- Sets the text at the end of a path of names; a text on the way stays. -/
def setPath (value : String) : (path : List String) → Members → Members
  | [], ms => ms
  | [name], ms => put name (.text value) ms
  | name :: path, ms =>
    match (ms.lookup name).getD (.group [] false) with
    | .group inner mixed => put name (.group (setPath value path inner) mixed) ms
    | _ => ms

/-- The members of a section that have variables of their own, known or not. -/
def exploded (e : Environment) (name : String) : Members :=
  e.settings.foldl (fun ms (full, value) =>
    match after? (lead ++ name ++ "__").toList full.toList with
    | some rest => setPath value (parts [] rest) ms
    | none => ms) []

end Environment

/-! ## Merging -/

mutual

/-- Members with others laid over them, groups in both merged alike. -/
def overlay (base : Members) : (top : Members) → Members
  | [] => base
  | (name, v) :: top => overlay (put name (overlayAt (base.lookup name) v) base) top

/-- A value laid over what has been there. -/
def overlayAt (base : Option Given) : (top : Given) → Given
  | .group top mixed =>
    match base with
    | some (.group base mixedToo) => .group (overlay base top) (mixed || mixedToo)
    | _ => .group top mixed
  | v => v

end

/-- Members of one value laid over those of another, deeper ones not merged. -/
def replaceMembers (base top : Members) : Members := top.foldl (fun ms (name, v) => put name v ms) base

/-- Members below those of `top`; a null there counts as missing.
mirrors config/settings:158-171 -/
def underlay (top base : Members) : Members :=
  base.foldl (fun ms (name, v) =>
    match (ms.lookup name).getD .null, v with
    | .null, v => put name v ms
    | .group inner mixed, .group base mixedToo =>
      put name (.group (replaceMembers base inner) (mixed || mixedToo)) ms
    | _, _ => ms) top

/-! ## Spelling -/

/-- The name among `names` that is spelt in this way, apart from case. -/
def known? (names : List String) (name : String) : Option String :=
  let small := Text.lowered name
  names.find? (· = small)

/-- Members with known names in the section's own spelling; of several the last one counts. -/
def respelled (names : List String) (ms : Members) : Members :=
  ms.foldl (fun done (name, v) => put ((known? names name).getD name) v done) []

/-- Names by which a caller says how settings are looked for; they are no settings themselves. -/
def searchNames : List String :=
  ["_case_sensitive", "_env_prefix", "_env_file", "_env_file_encoding", "_env_ignore_empty",
    "_env_nested_delimiter", "_env_parse_none_str", "_env_parse_enums", "_secrets_dir"]

/-- The settings that a caller gives: as above, but of several members with one
name the first one counts. -/
def settled (names : List String) : Members → Members
  | [] => []
  | (name, v) :: ms =>
    if name ∈ searchNames then settled names ms
    else match known? names name with
      | none => (name, v) :: settled names ms
      | some own => (own, v) :: (settled names ms).filter (·.1 ≠ own)

/-! ## Sources -/

namespace Environment

/-- The value of a variable that holds JSON. -/
def json (s : String) : Outcome Json :=
  match Json.parse s with
  | .ok v => .ok v
  | .error .tooDeep => .error .tooDeep
  | .error _ => .error .unreadableSetting

/-- A section: a variable that holds all of it as JSON, and those of its members. -/
def sectionValue (e : Environment) (name : String) (names : List String) : Outcome (Option Given) :=
  match e.get? name with
  | none =>
    match e.exploded name with
    | [] => .ok none
    | ms => .ok (some (.group (respelled names ms) false))
  | some s => do
    match Given.ofJson (← json s) with
    | .null => return none
    | .group ms mixed => return some (.group (respelled names (overlay ms (e.exploded name))) mixed)
    | v => return some v

/-- Everything that the environment says. -/
def members (e : Environment) : Outcome Members := do
  let groups ← Wallet.parts.mapM fun p => do
    return (← e.sectionValue p.name p.names).map (p.name, ·)
  return e.texts "" Wallet.scalarNames ++ groups.filterMap id

end Environment

/-- What a settings file says: members, and keys that are no texts. -/
structure File where
  members : Members
  strays : List Yaml.Atom

/-- The settings in the text of a file. A file that holds no table says nothing.
mirrors config/settings:117-127 -/
def File.read (s : String) : Outcome File :=
  match Yaml.read 2 s with
  | .ok (.table es) => .ok ⟨Given.ofEntries es, es.filterMap fun
    | (.text _, _) => none
    | (k, _) => some k⟩
  | .ok _ => .ok ⟨[], []⟩
  | .error .unreadable => (Checked.invalid [([], .badFile)] : Checked File).toOutcome
  | .error e => .error e

/-- The settings file that the others name; one that is missing says nothing. -/
def namedFile (readFile : String → Option String) (ms : Members) : Outcome File :=
  let path := (ms.lookup "config_path").getD (.text "")
  if !path.truthy then .ok ⟨[], []⟩
  else
    match path with
    | .text path => (readFile path).elim (.ok ⟨[], []⟩) File.read
    | _ => .error .wrongKind

/-- The problem of a key that is no text, with its place. Bytes may spell the name
of a member that is there, which is no problem, or that of an unknown one. -/
def strayProblem? (ms : Members) : Yaml.Atom → Option (Place × Problem)
  | .bool b => some ([if b then "1" else "0"], .notKey)
  | .bytes bs =>
    let place := [(Yaml.Atom.bytes bs).shown]
    match Bytes.text? bs with
    | some name => if name ∈ Wallet.names ∧ (ms.lookup name).isSome then none else some (place, .unknownMember)
    | none => some (place, .notKey)
  | k => some ([k.shown], .notKey)

/-- A section's members with variables of the environment for those that are missing. -/
def completed (e : Environment) (name : String) (names : List String) (ms : Members) : Members :=
  overlay (e.sectionTexts name names) (settled names ms)

/-- Completes a section, in which all keys are texts. Where it is missing, the
environment alone must do. -/
def completePart (e : Environment) (ms : Members) (p : Wallet.Part) : Outcome Members :=
  match ms.lookup p.name with
  | none => do
    let own := e.sectionTexts p.name p.names
    let _ ← (p.read own).toOutcome
    return put p.name (.group own false) ms
  | some (.group _ true) => .error .wrongKind
  | some (.group inner false) => .ok (put p.name (.group (completed e p.name p.names inner) false) ms)
  | some _ => .ok ms

/-- The settings of a wallet.
mirrors config/settings:130-179 -/
def Wallet.load (e : Environment) (readFile : String → Option String) (given : Members) : Outcome Wallet := do
  let ms := overlay (← e.members) (settled Wallet.names given)
  let file ← namedFile readFile ms
  let ms ← Wallet.parts.foldlM (completePart e) (underlay ms file.members)
  let strays := match file.strays.filterMap (strayProblem? ms) with
    | [] => .valid ()
    | ps => .invalid ps
  (Wallet.read strays ms).toOutcome

/-- A single section of settings. -/
def loadSection {α : Type} (e : Environment) (name : String) (names : List String)
    (read : Members → Checked α) (given : Members) : Outcome α :=
  (read (completed e name names given)).toOutcome

end Ecash.Settings
