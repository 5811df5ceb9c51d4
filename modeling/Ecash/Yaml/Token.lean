import Ecash.Yaml.Source

/-!
# Tokens

A document is a list of tokens. Indentation shows in them: a collection that is
written with indentation begins and ends with tokens of its own. Where a token
turns out to be the first of a key, because a colon follows on its line, the
mark of a key is put in front of it afterwards; `PossibleKey` remembers where
that may happen.
-/
namespace Ecash.Yaml

inductive Token where
  | directive (d : Directive)
  | documentStart
  | documentEnd
  | streamEnd
  | blockSequence
  | blockMapping
  | blockEnd
  | flowSequence
  | flowSequenceEnd
  | flowMapping
  | flowMappingEnd
  /-- The dash of an entry. -/
  | entry
  | comma
  | key
  | value
  | anchor (name : String)
  | reference (name : String)
  | tag (t : WrittenTag)
  | scalar (text : String) (plain : Bool)
  /-- Here the text breaks the rules. -/
  | broken (e : Failure)
  deriving DecidableEq, Repr

/-- Where a key may have begun: the number of its first token and its place. A
key is required where an entry of the collection around it has to begin. -/
structure PossibleKey where
  token : Nat
  required : Bool
  index : Nat
  line : Nat
  column : Nat
  deriving DecidableEq, Repr

/-- What has been scanned. `flow` counts the open brackets, `indents` holds the
columns of the collections around the one at column `indent`, `keys` the
possible keys by the number of brackets around them; the last token comes first. -/
structure Scanner where
  source : Source
  flow : Nat
  indent : Int
  indents : List Int
  keyAllowed : Bool
  keys : List (Nat × PossibleKey)
  tokens : List Token
  deriving Repr

abbrev Scanning := StateT Scanner Outcome

namespace Scanner

def ofText (s : String) : Scanner := ⟨.ofText s, 0, -1, [], true, [], []⟩

def emit (t : Token) (s : Scanner) : Scanner := { s with tokens := t :: s.tokens }

/-- Puts a token in front of the one with number `n`. -/
def insert (n : Nat) (t : Token) (s : Scanner) : Scanner :=
  let after := s.tokens.length - n
  { s with tokens := s.tokens.take after ++ t :: s.tokens.drop after }

/-- How far collections are closed at a column: their number, and the
indentation that is left. -/
def closing (column : Int) : Int → List Int → Nat × Int × List Int
  | indent, [] => (0, indent, [])
  | indent, i :: is =>
    if column < indent then
      let (n, rest) := closing column i is
      (n + 1, rest)
    else (0, indent, i :: is)

/-- Closes the collections that are indented further than a column. -/
def unwind (column : Int) (s : Scanner) : Scanner :=
  if 0 < s.flow then s
  else
    let (n, indent, indents) := closing column s.indent s.indents
    { s with indent, indents, tokens := List.replicate n .blockEnd ++ s.tokens }

/-- A key stands on one line and is no longer than 1024 characters. -/
def isStale (s : Scanner) (k : PossibleKey) : Bool :=
  k.line != s.source.line || k.index + 1024 < s.source.index

end Scanner

namespace Scanning

/-- The document breaks the rules of the language. -/
def refuse {α : Type} : Scanning α := throw .notYaml

/-- Reads from the source. -/
def read {α : Type} (r : Reading α) : Scanning α := do
  let s ← get
  let (a, source) ← (r s.source : Outcome (α × Source))
  set { s with source }
  return a

def emit (t : Token) : Scanning Unit := modify (·.emit t)

def allowKey (ok : Bool) : Scanning Unit := modify fun s => { s with keyAllowed := ok }

/-- Forgets the keys for which `p` holds; one that is required cannot be forgotten. -/
def forgetKeys (p : Nat → PossibleKey → Bool) : Scanning Unit := do
  let s ← get
  let (gone, left) := s.keys.partition fun (flow, k) => p flow k
  if gone.any (·.2.required) then refuse
  set { s with keys := left }

/-- Forgets the key inside these brackets. -/
def forgetKey : Scanning Unit := do
  let flow := (← get).flow
  forgetKeys fun f _ => f == flow

/-- A key may begin here. -/
def noteKey : Scanning Unit := do
  let s ← get
  if s.keyAllowed then
    forgetKey
    modify fun t => { t with keys := (s.flow,
      ⟨s.tokens.length, s.flow == 0 && s.indent == s.source.column, s.source.index, s.source.line, s.source.column⟩)
        :: t.keys }

/-- A block collection begins at a column, unless one is open there. -/
def opens (column : Nat) : Scanning Bool := do
  let s ← get
  if s.indent < column then
    set { s with indent := column, indents := s.indent :: s.indents }
    return true
  else return false

/-- A token of `n` characters. -/
def mark (n : Nat) (t : Token) : Scanning Unit := do
  read (Reading.skip n)
  emit t

/-- The beginning and the end of documents, and lines before them. -/
def outside : Scanning Unit := do
  modify (·.unwind (-1))
  forgetKey
  allowKey false

def openFlow (t : Token) : Scanning Unit := do
  noteKey
  modify fun s => { s with flow := s.flow + 1 }
  allowKey true
  mark 1 t

def closeFlow (t : Token) : Scanning Unit := do
  forgetKey
  if (← get).flow = 0 then refuse
  modify fun s => { s with flow := s.flow - 1 }
  allowKey false
  mark 1 t

/-- A dash or a question mark, which may begin a block collection. -/
def announce (collection t : Token) (keyNext : Bool) : Scanning Unit := do
  let s ← get
  if s.flow = 0 then
    if !s.keyAllowed then refuse
    if ← opens s.source.column then emit collection
  allowKey keyNext
  forgetKey
  mark 1 t

/-- A colon: it ends the key that has begun inside these brackets, if any. -/
def colon : Scanning Unit := do
  let s ← get
  match s.keys.lookup s.flow with
  | some k =>
    set { s with keys := s.keys.filter (·.1 != s.flow) }
    modify (·.insert k.token .key)
    if s.flow = 0 then
      if ← opens k.column then modify (·.insert k.token .blockMapping)
    allowKey false
  | none =>
    if s.flow = 0 then
      if !s.keyAllowed then refuse
      if ← opens s.source.column then emit .blockMapping
    allowKey (s.flow = 0)
    forgetKey
  mark 1 .value

/-- A token that may begin a key. -/
def item (r : Reading Token) : Scanning Unit := do
  noteKey
  allowKey false
  emit (← read r)

/-- A plain scalar; a key may follow if it ends at the beginning of a line. -/
def plain : Scanning Unit := do
  let s ← get
  noteKey
  let (text, fresh) ← read (Reading.plain (0 < s.flow) (s.indent + 1))
  allowKey fresh
  emit (.scalar text true)

def block (fold : Bool) : Scanning Unit := do
  allowKey true
  forgetKey
  let text ← read (Reading.block fold (← get).indent)
  emit (.scalar text false)

/-- Goes to the next token. -/
def toToken : Scanning Unit := do
  modify fun s =>
    let source := s.source.atToken
    { s with source, keyAllowed := s.keyAllowed || (s.flow == 0 && s.source.line < source.line) }
  let s ← get
  forgetKeys fun _ k => s.isStale k
  modify (·.unwind s.source.column)

/-- Scans a token; the answer is whether there may be more. -/
def next : Scanning Bool := do
  toToken
  let s ← get
  let flow := 0 < s.flow
  match s.source.rest with
  | [] => do
    outside
    modify fun s => { s with keys := [] }
    emit .streamEnd
    return false
  | c :: cs => do
    let lineStart := s.source.column == 0
    if c = '%' ∧ lineStart then
      outside
      emit (.directive (← read Reading.directive))
    else if lineStart ∧ startsMarker s.source.rest then
      outside
      mark 3 (if c = '-' then .documentStart else .documentEnd)
    else if c = '[' then openFlow .flowSequence
    else if c = '\x7b' then openFlow .flowMapping
    else if c = ']' then closeFlow .flowSequenceEnd
    else if c = '\x7d' then closeFlow .flowMappingEnd
    else if c = ',' then
      allowKey true
      forgetKey
      mark 1 .comma
    else if c = '-' ∧ atGap cs then announce .blockSequence .entry true
    else if c = '?' ∧ (flow ∨ atGap cs) then announce .blockMapping .key !flow
    else if c = ':' ∧ (flow ∨ atGap cs) then colon
    else if c = '*' then item (do return .reference (← Reading.anchorName))
    else if c = '&' then item (do return .anchor (← Reading.anchorName))
    else if c = '!' then item (do return .tag (← Reading.tag))
    else if c = '|' ∧ !flow then block false
    else if c = '>' ∧ !flow then block true
    else if c = '\'' then item (do return .scalar (← Reading.quoted false) false)
    else if c = '"' then item (do return .scalar (← Reading.quoted true) false)
    else if Reading.startsPlain flow s.source.rest then plain
    else refuse
    return true

end Scanning

/-- The tokens of a document; the last one ends the stream or tells why it is
broken there. -/
def tokensFrom : (fuel : Nat) → Scanner → List Token
  | 0, s => (Token.broken .notYaml :: s.tokens).reverse
  | fuel + 1, s =>
    match Scanning.next.run s with
    | .ok (true, s) => tokensFrom fuel s
    | .ok (false, s) => s.tokens.reverse
    | .error e => (Token.broken e :: s.tokens).reverse

/-- The tokens of a text. -/
def tokens (s : String) : List Token :=
  let cs := s.toList
  if cs.all isAllowed then tokensFrom (cs.length + 2) (.ofText s) else [.broken .notYaml]

example : tokens "a: [b]" = [.blockMapping, .key, .scalar "a" true, .value, .flowSequence, .scalar "b" true,
    .flowSequenceEnd, .blockEnd, .streamEnd] := by decide +kernel

end Ecash.Yaml
