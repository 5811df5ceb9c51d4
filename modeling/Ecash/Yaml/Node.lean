import Ecash.Yaml.Scalar
import Ecash.Yaml.Token

/-!
# Nodes

The tokens of a document are composed to a graph of nodes, each with a tag that
says what it is. An anchor gives a node a name, by which it can stand at other
places too, even inside itself; nodes are therefore named by their numbers.
-/
namespace Ecash.Yaml

/-- A value as it is written; items, keys and values are given by their numbers. -/
inductive Node where
  | scalar (tag text : String)
  | list (tag : String) (items : List Nat)
  | table (tag : String) (pairs : List (Nat × Nat))
  deriving DecidableEq, Repr

def Node.tag : Node → String
  | .scalar tag _ | .list tag _ | .table tag _ => tag

/-- The nodes of a document, and the one that stands for all of it. -/
structure Graph where
  nodes : Array Node
  root : Nat
  deriving DecidableEq, Repr

/-- A graph in the making: the tokens that are left, the nodes so far, those with
a name, and what the short forms of tags stand for. -/
structure Draft where
  tokens : List Token
  nodes : Array Node
  anchors : List (String × Nat)
  shortForms : List (String × String)
  deriving Repr

abbrev Composing := StateT Draft Outcome

/-- Short forms that need not be declared. -/
def usualForms : List (String × String) := [("!", "!"), ("!!", coreLead)]

/-- How deeply collections may be nested. -/
def maxNesting : Nat := 487

namespace Composing

/-- The document breaks the rules of the language. -/
def refuse {α : Type} : Composing α := throw .notYaml

/-- The next token. -/
def peek : Composing Token := do
  match (← get).tokens with
  | [] => refuse
  | .broken e :: _ => throw e
  | t :: _ => return t

/-- Goes past the next token. -/
def skip : Composing Unit := modify fun d => { d with tokens := d.tokens.tail }

/-- Names a node. A name is given only once. -/
def name (anchor : Option String) (n : Nat) : Composing Unit := do
  match anchor with
  | none => return
  | some a =>
    if ((← get).anchors.lookup a).isSome then refuse
    modify fun d => { d with anchors := (a, n) :: d.anchors }

/-- Adds a node. -/
def add (anchor : Option String) (v : Node) : Composing Nat := do
  let n := (← get).nodes.size
  name anchor n
  modify fun d => { d with nodes := d.nodes.push v }
  return n

/-- The node where nothing is written. -/
def empty : Composing Nat := add none (.scalar (core "null") "")

/-- Adds a collection, which may hold itself. -/
def enclose (anchor : Option String) (inside : Composing Node) : Composing Nat := do
  let n ← add anchor (.scalar "" "")
  let v ← inside
  modify fun d => { d with nodes := d.nodes.setIfInBounds n v }
  return n

/-- A collection at a place where `depth` levels of nesting may follow; inside of
it there is one less. -/
def nested {α : Type} (anchor : Option String) (make : α → Node) (depth : Nat) (inside : Nat → Composing α) :
    Composing Nat :=
  match depth with
  | 0 => throw .tooDeep
  | d + 1 => enclose anchor (make <$> inside d)

/-! ## Tags -/

/-- What may stand before a value: a name for it, and what it has to be. -/
structure Properties where
  anchor : Option String
  tag : Option WrittenTag
  deriving DecidableEq, Repr

def properties : Composing Properties := do
  match ← peek with
  | .anchor a =>
    skip
    match ← peek with
    | .tag t => do
      skip
      return ⟨some a, some t⟩
    | _ => return ⟨some a, none⟩
  | .tag t =>
    skip
    match ← peek with
    | .anchor a => do
      skip
      return ⟨some a, some t⟩
    | _ => return ⟨none, some t⟩
  | _ => return ⟨none, none⟩

/-- A tag in full; the mark that a value is what it looks like is none. -/
def fullTag (t : Option WrittenTag) : Composing (Option String) := do
  let tag ← match t with
    | none => return none
    | some (.whole tag) => pure tag
    | some (.short handle suffix) =>
      match (← get).shortForms.lookup handle with
      | some lead => pure (lead ++ suffix)
      | none => refuse
  return if tag = "!" then none else some tag

/-! ## Collections -/

/-- What may begin at a place: collections by indentation, and entries of a list
that are not indented further than the key before them. -/
structure Place where
  block : Bool
  entries : Bool

def inBlock : Place := ⟨true, false⟩

/-- After a key or a colon. -/
def inPair : Place := ⟨true, true⟩

def inFlow : Place := ⟨false, false⟩

def endsEntry : Token → Bool
  | .entry | .blockEnd => true
  | _ => false

def endsPart : Token → Bool
  | .key | .value | .blockEnd => true
  | _ => false

def endsItem : Token → Bool
  | .comma | .flowSequenceEnd => true
  | _ => false

def endsMember : Token → Bool
  | .comma | .flowMappingEnd => true
  | _ => false

mutual

/-- A node; collections may be nested `depth` deep inside it. -/
def node (at_ : Place) (depth : Nat) : (fuel : Nat) → Composing Nat
  | 0 => refuse
  | fuel + 1 => do
    match ← peek with
    | .reference a => do
      skip
      match (← get).anchors.lookup a with
      | some n => return n
      | none => refuse
    | _ => do
      let p ← properties
      let tag ← fullTag p.tag
      let looks := p.tag.isSome && tag.isNone
      match ← peek, at_.block with
      | .scalar text plain, _ => do
        skip
        let implied := if looks || plain then implicitTag text else core "str"
        add p.anchor (.scalar (tag.getD implied) text)
      | .flowSequence, _ =>
        nested p.anchor (.list (tag.getD (core "seq"))) depth fun d => do
          skip
          flowItems true d fuel
      | .flowMapping, _ =>
        nested p.anchor (.table (tag.getD (core "map"))) depth fun d => do
          skip
          flowPairs true d fuel
      | .blockSequence, true =>
        nested p.anchor (.list (tag.getD (core "seq"))) depth fun d => do
          skip
          blockItems d fuel
      | .blockMapping, true =>
        nested p.anchor (.table (tag.getD (core "map"))) depth fun d => do
          skip
          blockPairs d fuel
      | t, _ =>
        if t = .entry ∧ at_.entries then
          nested p.anchor (.list (tag.getD (core "seq"))) depth fun d => entries d fuel
        else if p.anchor.isSome ∨ p.tag.isSome then
          add p.anchor (.scalar (tag.getD (core "null")) "")
        else refuse
termination_by structural fuel => fuel

/-- A node, or an empty one in front of a token that `ends` its part. -/
def part (ends : Token → Bool) (at_ : Place) (depth : Nat) : (fuel : Nat) → Composing Nat
  | 0 => refuse
  | fuel + 1 => do
    if ends (← peek) then empty else node at_ depth fuel
termination_by structural fuel => fuel

/-- A node after a colon, or an empty one without a colon. -/
def valuePart (ends : Token → Bool) (at_ : Place) (depth : Nat) : (fuel : Nat) → Composing Nat
  | 0 => refuse
  | fuel + 1 => do
    if (← peek) = .value then
      skip
      part ends at_ depth fuel
    else empty
termination_by structural fuel => fuel

/-- The items of an indented list. -/
def blockItems (depth : Nat) : (fuel : Nat) → Composing (List Nat)
  | 0 => refuse
  | fuel + 1 => do
    match ← peek with
    | .entry => do
      skip
      let v ← part endsEntry inBlock depth fuel
      return v :: (← blockItems depth fuel)
    | .blockEnd => do
      skip
      return []
    | _ => refuse
termination_by structural fuel => fuel

/-- The items of a list that is not indented further than the key before it. -/
def entries (depth : Nat) : (fuel : Nat) → Composing (List Nat)
  | 0 => refuse
  | fuel + 1 => do
    if (← peek) = .entry then
      skip
      let v ← part (fun t => t = .entry ∨ endsPart t) inBlock depth fuel
      return v :: (← entries depth fuel)
    else return []
termination_by structural fuel => fuel

/-- The pairs of an indented table. -/
def blockPairs (depth : Nat) : (fuel : Nat) → Composing (List (Nat × Nat))
  | 0 => refuse
  | fuel + 1 => do
    match ← peek with
    | .key => do
      skip
      let k ← part endsPart inPair depth fuel
      let v ← valuePart endsPart inPair depth fuel
      return (k, v) :: (← blockPairs depth fuel)
    | .blockEnd => do
      skip
      return []
    | _ => refuse
termination_by structural fuel => fuel

/-- The items up to a closing bracket. An item may be a single pair. -/
def flowItems (first : Bool) (depth : Nat) : (fuel : Nat) → Composing (List Nat)
  | 0 => refuse
  | fuel + 1 => do
    if (← peek) = .flowSequenceEnd then
      skip
      return []
    if !first then
      if (← peek) ≠ .comma then refuse
      skip
    match ← peek with
    | .key => do
      let v ← nested none (.table (core "map")) depth fun d => do
        skip
        let k ← part (fun t => t = .value ∨ endsItem t) inFlow d fuel
        return [(k, ← valuePart endsItem inFlow d fuel)]
      return v :: (← flowItems false depth fuel)
    | .flowSequenceEnd => do
      skip
      return []
    | _ => do
      let v ← node inFlow depth fuel
      return v :: (← flowItems false depth fuel)
termination_by structural fuel => fuel

/-- The pairs up to a closing brace. -/
def flowPairs (first : Bool) (depth : Nat) : (fuel : Nat) → Composing (List (Nat × Nat))
  | 0 => refuse
  | fuel + 1 => do
    if (← peek) = .flowMappingEnd then
      skip
      return []
    if !first then
      if (← peek) ≠ .comma then refuse
      skip
    match ← peek with
    | .key => do
      skip
      let k ← part (fun t => t = .value ∨ endsMember t) inFlow depth fuel
      let v ← valuePart endsMember inFlow depth fuel
      return (k, v) :: (← flowPairs false depth fuel)
    | .flowMappingEnd => do
      skip
      return []
    | _ => do
      let k ← node inFlow depth fuel
      let v ← empty
      return (k, v) :: (← flowPairs false depth fuel)
termination_by structural fuel => fuel

end

/-! ## Documents -/

/-- The lines before a document: the version is given once, and it is 1. -/
def directives (seen : Bool) (forms : List (String × String)) : (fuel : Nat) →
    Composing (List (String × String))
  | 0 => refuse
  | fuel + 1 => do
    match ← peek with
    | .directive d => do
      skip
      match d with
      | .version major => if seen ∨ major ≠ 1 then refuse else directives true forms fuel
      | .shortForm h t =>
        if (forms.lookup h).isSome then refuse else directives seen ((h, t) :: forms) fuel
      | .unknown => directives seen forms fuel
    | _ => return forms

/-- After a document nothing may follow but marks of its end. -/
def finish : (fuel : Nat) → Composing Unit
  | 0 => refuse
  | fuel + 1 => do
    match ← peek with
    | .documentEnd => do
      skip
      finish fuel
    | .streamEnd => return
    | _ => refuse

def startsDocument : Token → Bool
  | .directive _ | .documentStart | .streamEnd => true
  | _ => false

/-- The only document, if there is one. -/
def document (fuel : Nat) : Composing (Option Nat) := do
  if (← peek) = .streamEnd then return none
  let marked := startsDocument (← peek)
  if marked then
    let forms ← directives false [] fuel
    modify fun d => { d with shortForms := forms ++ usualForms }
    if (← peek) ≠ .documentStart then refuse
    skip
  let t ← peek
  let root ← if marked ∧ (startsDocument t ∨ t = .documentEnd) then empty
    else node inBlock maxNesting fuel
  finish fuel
  return some root

end Composing

/-- The graph of a text; a text without a document has none. -/
def compose (s : String) : Outcome (Option Graph) := do
  let ts := tokens s
  let (root, d) ← (Composing.document (3 * ts.length + 3)).run ⟨ts, #[], [], usualForms⟩
  return root.map fun n => ⟨d.nodes, n⟩

end Ecash.Yaml
