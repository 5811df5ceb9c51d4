import Ecash.Yaml.Atom
import Ecash.Yaml.Node

/-!
# Values

The nodes of a document are made into values. Scalars are made where they are
met, but the contents of collections wait for their turn, so that a collection
may hold itself. A table with the key `<<` merges other tables, and its own
entries win. Of several entries with one key the last value counts, at the place
of the first.
-/
namespace Ecash.Yaml

/-- What has been made of a node; values inside of it are given by their numbers. -/
inductive Part where
  | atom (a : Atom)
  | table (entries : List (Atom × Nat))
  /-- A list, a set or the like. -/
  | other
  deriving DecidableEq, Repr

/-- Nodes, what has been made of them, and the collections whose contents wait. -/
structure Assembly where
  nodes : Array Node
  parts : Array (Option Part)
  waiting : List Nat
  deriving Repr

abbrev Assembling := StateT Assembly Outcome

namespace Assembling

/-- The document breaks the rules of the language. -/
def refuse {α : Type} : Assembling α := throw .notYaml

def node (n : Nat) : Assembling Node := do return (← get).nodes.getD n (.scalar "" "")

def setNode (n : Nat) (v : Node) : Assembling Unit :=
  modify fun s => { s with nodes := s.nodes.setIfInBounds n v }

def setPart (n : Nat) (p : Part) : Assembling Unit :=
  modify fun s => { s with parts := s.parts.setIfInBounds n (some p) }

def hasTag (name : String) (n : Nat) : Assembling Bool := do return (← node n).tag == core name

/-! ## Merging -/

/-- The pairs of a table. -/
def pairs (n : Nat) : Assembling (List (Nat × Nat)) := do
  match ← node n with
  | .table _ ps => return ps
  | _ => refuse

def setPairs (n : Nat) (ps : List (Nat × Nat)) : Assembling Unit := do
  setNode n (.table (← node n).tag ps)

/-- Takes the first merge out of pairs that come after others. -/
def takeMerge (before : List (Nat × Nat)) : List (Nat × Nat) → Assembling (Option (Nat × List (Nat × Nat)))
  | [] => return none
  | (k, v) :: ps => do
    if ← hasTag "merge" k then return some (v, before ++ ps)
    else takeMerge (before ++ [(k, v)]) ps

/-- The tables that a merge names. -/
def merged (n : Nat) : Assembling (List Nat) := do
  match ← node n with
  | .list _ items => return items
  | _ => return [n]

/-- A key `=` is the text that it looks like. -/
def plainKey (n : Nat) : Assembling Unit := do
  match ← node n with
  | .scalar tag s => if tag = core "value" then setNode n (.scalar (core "str") s)
  | _ => return

/-- The pairs of a table behind those that it merges. With every merge that is
taken out there is one less, so `fuel` is their number at most. -/
def flatten : (fuel : Nat) → Nat → Assembling (List (Nat × Nat))
  | 0, n => pairs n
  | fuel + 1, n => do
    match ← takeMerge [] (← pairs n) with
    | none =>
      let ps ← pairs n
      ps.forM fun (k, _) => plainKey k
      return ps
    | some (v, left) =>
      setPairs n left
      let groups ← (← merged v).mapM (flatten fuel)
      let ps := groups.reverse.flatten ++ (← flatten fuel n)
      setPairs n ps
      return ps

/-- The number of all pairs. -/
def pairCount (nodes : Array Node) : Nat :=
  nodes.foldl (fun n v => match v with
    | .table _ ps => n + ps.length
    | _ => n) 0

/-! ## Making -/

/-- The text of a scalar; a table has that of the value of its first `=`. Only a
table that holds itself is deeper than there are nodes. -/
def textOf : (fuel : Nat) → Nat → Assembling String
  | 0, _ => throw .tooDeep
  | fuel + 1, n => do
    match ← node n with
    | .scalar _ s => return s
    | .list .. => refuse
    | .table _ ps =>
      match ← ps.findM? fun (k, _) => hasTag "value" k with
      | some (_, v) => textOf fuel v
      | none => refuse

/-- A scalar, or a table in place of one. -/
def atom (name : String) (n : Nat) : Assembling Atom := do
  match Atom.reader? name with
  | none => refuse
  | some read => do
    let s ← textOf ((← get).nodes.size + 1) n
    match name, ← node n with
    | "timestamp", .table .. => throw .wrongKind
    | _, _ => read s

/-- Collections are empty until their turn comes. -/
def start (n : Nat) : Assembling Part := do
  let later (p : Part) : Assembling Part := do
    modify fun s => { s with waiting := s.waiting ++ [n] }
    return p
  match coreName? (← node n).tag with
  | some "map" => later (.table [])
  | some "seq" | some "set" | some "omap" | some "pairs" => later .other
  | some name => return .atom (← atom name n)
  | none => refuse

/-- What a node stands for; it is made only once. -/
def make (n : Nat) : Assembling Part := do
  match (← get).parts.getD n none with
  | some p => return p
  | none =>
    let p ← start n
    setPart n p
    return p

/-- Sets an entry: in place when the key is there, else at the end. -/
def put (k : Atom) (v : Nat) : List (Atom × Nat) → List (Atom × Nat)
  | [] => [(k, v)]
  | (l, w) :: rest => if l.same k then (l, v) :: rest else (l, w) :: put k v rest

/-- The entries of a table; a key has no parts. -/
def entries (n : Nat) : Assembling (List (Atom × Nat)) := do
  (← flatten (pairCount (← get).nodes) n).foldlM (fun done (k, v) => do
    match ← make k with
    | .atom a =>
      let _ ← make v
      return put a v done
    | _ => refuse) []

/-- Makes the contents of a collection. -/
def fill (n : Nat) : Assembling Unit := do
  match coreName? (← node n).tag, ← node n with
  | some "map", .table .. => setPart n (.table (← entries n))
  | some "set", .table .. =>
    let _ ← entries n
  | some "seq", .list _ items => items.forM fun i => do
    let _ ← make i
  | some "omap", .list _ items | some "pairs", .list _ items => items.forM fun i => do
    match ← node i with
    | .table _ [(k, v)] =>
      let _ ← make k
      let _ ← make v
    | _ => refuse
  | _, _ => refuse

/-- Makes the contents of all that waits; every node waits at most once. -/
def fillAll : (fuel : Nat) → Assembling Unit
  | 0 => return
  | fuel + 1 => do
    match (← get).waiting with
    | [] => return
    | n :: rest =>
      modify fun s => { s with waiting := rest }
      fill n
      fillAll fuel

end Assembling

/-! ## Values -/

/-- A value as far as it is looked into. -/
inductive Value where
  | atom (a : Atom)
  | table (entries : List (Atom × Value))
  /-- A list, a set or the like, or a table that is nested too deeply to be looked into. -/
  | other

/-- The value of a node, looking `depth` tables deep. -/
def Value.ofPart (parts : Array (Option Part)) : (depth : Nat) → Nat → Value
  | depth, n =>
    match parts.getD n none with
    | some (.atom a) => .atom a
    | some (.table es) =>
      match depth with
      | 0 => .other
      | depth + 1 => .table (es.map fun (k, v) => (k, ofPart parts depth v))
    | _ => .other

/-- The value of a text; one without a document stands for nothing. -/
def read (depth : Nat) (s : String) : Outcome Value := do
  match ← compose s with
  | none => return .atom .null
  | some g =>
    let all : Assembling Unit := do
      let _ ← Assembling.make g.root
      Assembling.fillAll (g.nodes.size + 1)
    let (_, made) ← all.run ⟨g.nodes, Array.replicate g.nodes.size none, []⟩
    return .ofPart made.parts depth g.root

end Ecash.Yaml
