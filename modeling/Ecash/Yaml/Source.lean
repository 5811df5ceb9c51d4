import Ecash.Bytes.Hex
import Ecash.Decimal.Read
import Ecash.Failure
import Ecash.Text.Half
import Ecash.Text.Numeral

/-!
# The characters of a document

A document is read from left to right. Line and column matter: collections are
told apart by the column at which their entries begin, and a key must stand on
one line with its colon. This module reads the parts that stand by themselves:
names, tags, directives and scalars.
-/
namespace Ecash.Yaml

-- Powers are core's own, whatever else is imported.
attribute [local instance (high)] instPowNat

/-! ## Characters -/

def isBreak (c : Char) : Bool := c == '\n' || c.toNat == 0x85 || c.toNat == 0x2028 || c.toNat == 0x2029

def isSpace (c : Char) : Bool := c == ' ' || c == '\t'

/-- Characters that may appear in a document. -/
def isAllowed (c : Char) : Bool :=
  let n := c.toNat
  n == 0x09 || n == 0x0A || n == 0x0D || (0x20 ≤ n && n ≤ 0x7E) || n == 0x85 || (0xA0 ≤ n && n ≤ 0xFFFD)
    || 0x10000 ≤ n

/-- Nothing, a blank or a line break comes next. -/
def atGap : List Char → Bool
  | [] => true
  | c :: _ => isSpace c || isBreak c

/-- The same without a tab. -/
def atSpace : List Char → Bool
  | [] => true
  | c :: _ => c == ' ' || isBreak c

def atLineEnd : List Char → Bool
  | [] => true
  | c :: _ => isBreak c

/-- Three dashes or points by themselves: a document begins or ends. -/
def startsMarker : List Char → Bool
  | '-' :: '-' :: '-' :: cs | '.' :: '.' :: '.' :: cs => atGap cs
  | _ => false

/-- Line breaks of other systems become line feeds. -/
def unixBreaks : List Char → List Char
  | '\r' :: '\n' :: cs => '\n' :: unixBreaks cs
  | '\r' :: cs => '\n' :: unixBreaks cs
  | c :: cs => c :: unixBreaks cs
  | [] => []

/-- The byte order mark, which takes no column. -/
def orderMark : Char := Char.ofNat 0xFEFF

/-- What has not been read yet, and where it begins. -/
structure Source where
  rest : List Char
  index : Nat
  line : Nat
  column : Nat
  deriving DecidableEq, Repr

/-- A reader of part of a document. -/
abbrev Reading := StateT Source Outcome

namespace Source

def ofText (s : String) : Source :=
  let cs := unixBreaks s.toList
  if cs.head? = some orderMark then ⟨cs.tail, 1, 0, 0⟩ else ⟨cs, 0, 0, 0⟩

/-- Past `n` characters. -/
def drop (s : Source) : Nat → Source
  | 0 => s
  | n + 1 =>
    match s.rest with
    | [] => s
    | c :: cs =>
      (if isBreak c then ⟨cs, s.index + 1, s.line + 1, 0⟩
      else ⟨cs, s.index + 1, s.line, if c = orderMark then s.column else s.column + 1⟩ : Source).drop n

/-- The number of characters up to the next token: blanks, line breaks and
comments. A tab is none of these. -/
def gapLength : (comment : Bool) → List Char → Nat
  | comment, c :: cs =>
    if isBreak c then gapLength false cs + 1
    else if comment || c == ' ' then gapLength comment cs + 1
    else if c == '#' then gapLength true cs + 1
    else 0
  | _, [] => 0

/-- At the next token. -/
def atToken (s : Source) : Source := s.drop (gapLength false s.rest)

end Source

/-- A tag as it is written: all of it, or its end after a short form. -/
inductive WrittenTag where
  | whole (tag : String)
  | short (handle suffix : String)
  deriving DecidableEq, Repr

/-- A line for the reader before a document. -/
inductive Directive where
  | version (major : Nat)
  | shortForm (handle tag : String)
  | unknown
  deriving DecidableEq, Repr

namespace Reading

/-- The document breaks the rules of the language. -/
def refuse {α : Type} : Reading α := throw .notYaml

def expect (ok : Bool) : Reading Unit := if ok then pure () else refuse

def rest : Reading (List Char) := do return (← get).rest

def peek : Reading (Option Char) := do return (← rest).head?

def skip (n : Nat) : Reading Unit := modify (·.drop n)

/-- Takes the characters that satisfy `p`; none of them is a line break. -/
def takeWhile (p : Char → Bool) : Reading (List Char) := do
  let cs := (← rest).takeWhile p
  skip cs.length
  return cs

def spaces : Reading (List Char) := takeWhile (· == ' ')

/-- A line break, if one comes next, as it counts in a text. -/
def lineBreak? : Reading (Option Char) := do
  match ← peek with
  | none => return none
  | some c =>
    if isBreak c then
      skip 1
      return some (if c.toNat == 0x85 then '\n' else c)
    else return none

/-- The end of a line, perhaps after a comment. -/
def lineEnd : Reading Unit := do
  let _ ← spaces
  if (← peek) = some '#' then
    let _ ← takeWhile (!isBreak ·)
  expect (atLineEnd (← rest))
  let _ ← lineBreak?

/-! ## Names and tags -/

def isNameChar (c : Char) : Bool := c.isAlphanum || c == '-' || c == '_'

def name : Reading (List Char) := do
  let cs ← takeWhile isNameChar
  expect (!cs.isEmpty)
  return cs

/-- The name after `&` or `*`. -/
def anchorName : Reading String := do
  skip 1
  let cs ← name
  let rest ← rest
  expect (atGap rest || rest.head?.any ("?:,]\x7d%@`".toList.contains ·))
  return String.ofList cs

/-- Bytes written as `%` and two digits each. -/
def escapedBytes : (fuel : Nat) → Reading Bytes
  | 0 => return []
  | fuel + 1 => do
    match ← rest with
    | '%' :: c :: d :: _ =>
      match Bytes.hexValue? c, Bytes.hexValue? d with
      | some high, some low =>
        skip 3
        return UInt8.ofNat (16 * high + low) :: (← escapedBytes fuel)
      | _, _ => refuse
    | '%' :: _ => refuse
    | _ => return []

def isUriChar (c : Char) : Bool := c.isAlphanum || "-;/?:@&=+$,_.!~*'()[]".toList.contains c

/-- Characters of a tag, bytes of UTF-8 among them. -/
def uriFrom : (fuel : Nat) → Reading (List Char)
  | 0 => return []
  | fuel + 1 => do
    let cs ← takeWhile isUriChar
    if (← peek) = some '%' then
      match String.fromUTF8? (← escapedBytes (fuel + 1)).toByteArray with
      | some s => return cs ++ (Text.kept s).toList ++ (← uriFrom fuel)
      | none => refuse
    else return cs

def uri : Reading String := do
  let cs ← rest
  expect (cs.head?.any fun c => isUriChar c || c == '%')
  return String.ofList (← uriFrom (cs.length + 1))

/-- The short form of the beginning of tags: an exclamation mark, or two with a
name between them. -/
def handle : Reading String := do
  expect ((← peek) = some '!')
  skip 1
  if (← peek) = some ' ' then return "!"
  let cs ← takeWhile isNameChar
  expect ((← peek) = some '!')
  skip 1
  return "!" ++ String.ofList cs ++ "!"

/-- The tag that begins here. -/
def tag : Reading WrittenTag := do
  let cs := (← rest).tail
  let t ←
    if cs.head? = some '<' then
      skip 2
      let t ← uri
      expect ((← peek) = some '>')
      skip 1
      pure (.whole t)
    else if atGap cs then
      skip 1
      pure (.whole "!")
    else if (cs.takeWhile fun c => c != ' ' && !isBreak c).contains '!' then do
      let h ← handle
      pure (.short h (← uri))
    else do
      skip 1
      pure (.short "!" (← uri))
  expect (atSpace (← rest))
  return t

/-! ## Directives -/

def number : Reading Nat := do
  let ds ← takeWhile Decimal.isDigit
  expect (!ds.isEmpty)
  if Text.maxDecimalDigits < ds.length then throw .unreadable
  return Decimal.ofDigits ds

/-- The directive after a percent sign. -/
def directive : Reading Directive := do
  skip 1
  let cs ← name
  expect (atSpace (← rest))
  let d ← match String.ofList cs with
    | "YAML" => do
      let _ ← spaces
      let major ← number
      expect ((← peek) = some '.')
      skip 1
      let _ ← number
      expect (atSpace (← rest))
      pure (.version major)
    | "TAG" => do
      let _ ← spaces
      let h ← handle
      expect ((← peek) = some ' ')
      let _ ← spaces
      let t ← uri
      expect (atSpace (← rest))
      pure (.shortForm h t)
    | _ => do
      let _ ← takeWhile (!isBreak ·)
      pure .unknown
  lineEnd
  return d

/-! ## Folding -/

/-- A single line break is folded into a space; of more the first is lost. -/
def folded (first : Char) (more : List Char) : List Char :=
  if first ≠ '\n' then first :: more else if more.isEmpty then [' '] else more

/-! ## Plain scalars -/

/-- The text up to a blank, a colon that ends a key, or a mark of a flow collection. -/
def chunk (flow : Bool) : List Char → List Char
  | c :: cs =>
    let keyEnds := atGap cs || (flow && cs.head?.any (",[]\x7b\x7d".toList.contains ·))
    if isSpace c || isBreak c || (c == ':' && keyEnds) || (flow && ",?[]\x7b\x7d".toList.contains c) then []
    else c :: chunk flow cs
  | [] => []

/-- The line breaks up to the next text; none if a marker ends them. -/
def plainBreaks? : (fuel : Nat) → Reading (Option (List Char))
  | 0 => return some []
  | fuel + 1 => do
    if startsMarker (← rest) then return none
    let _ ← spaces
    match ← lineBreak? with
    | none => return some []
    | some c => return (← plainBreaks? fuel).map (c :: ·)

/-- Blanks after a chunk, and whether there was a line break among them. -/
def plainGap : Reading (List Char × Bool) := do
  let blanks ← spaces
  match ← lineBreak? with
  | none => return (blanks, false)
  | some c =>
    let more ← plainBreaks? ((← rest).length + 1)
    return ((more.map (folded c)).getD [], true)

/-- Chunks and the gaps between them; outside of flow collections all lines are
indented by at least `indent`. `done` holds the text so far, the last character
first; the result tells whether a new line has begun after the text. -/
def plainFrom (flow : Bool) (indent : Int) : (fuel : Nat) → (done gap : List Char) → (fresh : Bool) →
    Reading (List Char × Bool)
  | 0, done, _, fresh => return (done.reverse, fresh)
  | fuel + 1, done, gap, fresh => do
    let s ← get
    let cs := if s.rest.head? = some '#' then [] else chunk flow s.rest
    if cs.isEmpty then return (done.reverse, fresh)
    skip cs.length
    let done := cs.reverse ++ gap.reverse ++ done
    let (gap, fresh) ← plainGap
    let s ← get
    if gap.isEmpty || s.rest.head? == some '#' || (!flow && s.column < indent) then return (done.reverse, fresh)
    plainFrom flow indent fuel done gap fresh

/-- Can a plain scalar begin here? -/
def startsPlain (flow : Bool) : List Char → Bool
  | [] => false
  | c :: cs =>
    !(isSpace c || isBreak c || "-?:,[]\x7b\x7d#&*!|>'\"%@`".toList.contains c)
      || (!atGap cs && (c == '-' || (!flow && (c == '?' || c == ':'))))

/-- A plain scalar, and whether it ends at the beginning of a line. -/
def plain (flow : Bool) (indent : Int) : Reading (String × Bool) := do
  let (cs, fresh) ← plainFrom flow indent (← rest).length [] [] false
  return (String.ofList cs, fresh)

/-! ## Quoted scalars -/

/-- What an escape of one letter stands for. -/
def escape? : Char → Option Nat
  | '0' => some 0
  | 'a' => some 7
  | 'b' => some 8
  | 't' | '\t' => some 9
  | 'n' => some 10
  | 'v' => some 11
  | 'f' => some 12
  | 'r' => some 13
  | 'e' => some 27
  | ' ' => some 32
  | '"' => some 34
  | '/' => some 47
  | '\\' => some 92
  | 'N' => some 0x85
  | '_' => some 0xA0
  | 'L' => some 0x2028
  | 'P' => some 0x2029
  | _ => none

/-- How many hexadecimal digits follow a letter. -/
def escapeWidth? : Char → Option Nat
  | 'x' => some 2
  | 'u' => some 4
  | 'U' => some 8
  | _ => none

/-- The code point with the given digits. -/
def codePoint (ds : List Char) : Reading (List Char) :=
  match ds.mapM Bytes.hexValue? with
  | none => refuse
  | some ns =>
    let n := ns.foldl (fun n d => n * 16 + d) 0
    if n ≤ 0x10FFFF then return Text.keep n
    else if n < 2 ^ (31 : Nat) then throw .unreadable
    else throw .tooLarge

/-- Line breaks and blanks up to the next text inside quotes, where no marker
may stand. -/
def quotedBreaks : (fuel : Nat) → Reading (List Char)
  | 0 => return []
  | fuel + 1 => do
    expect (!startsMarker (← rest))
    let _ ← takeWhile isSpace
    match ← lineBreak? with
    | none => return []
    | some c => return c :: (← quotedBreaks fuel)

/-- What a backslash and the characters after it stand for. -/
def escape : Reading (List Char) := do
  skip 1
  match ← rest with
  | [] => refuse
  | c :: cs =>
    if isBreak c then
      skip 1
      quotedBreaks (cs.length + 1)
    else
      skip 1
      match escape? c, escapeWidth? c with
      | some n, _ => return [Char.ofNat n]
      | none, some width =>
        let ds := cs.take width
        expect (ds.length = width)
        let found ← codePoint ds
        skip width
        return found
      | none, none => refuse

/-- Blanks and line breaks inside quotes. -/
def quotedGap : Reading (List Char) := do
  let blanks ← takeWhile isSpace
  match ← lineBreak? with
  | none => return blanks
  | some c => return folded c (← quotedBreaks ((← rest).length + 1))

/-- The text up to the closing quote. -/
def quotedFrom (double : Bool) : (fuel : Nat) → (done : List Char) → Reading (List Char)
  | 0, _ => refuse
  | fuel + 1, done => do
    match double, ← rest with
    | _, [] => refuse
    | false, '\'' :: '\'' :: _ =>
      skip 2
      quotedFrom double fuel ('\'' :: done)
    | false, '\'' :: _ | true, '"' :: _ =>
      skip 1
      return done.reverse
    | true, '\\' :: _ => quotedFrom double fuel ((← escape).reverse ++ done)
    | _, c :: _ =>
      if isSpace c || isBreak c then quotedFrom double fuel ((← quotedGap).reverse ++ done)
      else
        skip 1
        quotedFrom double fuel (c :: done)

/-- A scalar in quotes. -/
def quoted (double : Bool) : Reading String := do
  skip 1
  return String.ofList (← quotedFrom double ((← rest).length + 1) [])

/-! ## Block scalars -/

/-- How the line breaks at a block scalar's end are treated. -/
inductive Chomping where
  | strip
  | clip
  | keep
  deriving DecidableEq, Repr

/-- Chomping and the number of columns by which the text is indented, if given. -/
structure BlockHeader where
  chomping : Chomping
  indent : Option Nat
  deriving DecidableEq, Repr

def chomping? : Char → Option Chomping
  | '-' => some .strip
  | '+' => some .keep
  | _ => none

def indentDigit? (c : Char) : Option Nat := if '1' ≤ c ∧ c ≤ '9' then some (c.toNat - 48) else none

/-- The marks after `|` or `>`, in either order, and their number. -/
def blockMarks : List Char → BlockHeader × Nat
  | [] => (⟨.clip, none⟩, 0)
  | c :: cs =>
    match chomping? c, indentDigit? c with
    | some ch, _ =>
      match cs.head?.bind indentDigit? with
      | some n => (⟨ch, some n⟩, 2)
      | none => (⟨ch, none⟩, 1)
    | none, some n =>
      match cs.head?.bind chomping? with
      | some ch => (⟨ch, some n⟩, 2)
      | none => (⟨.clip, some n⟩, 1)
    | none, none => (⟨.clip, none⟩, 0)

/-- The header's line up to the first line of the text. -/
def blockHeader : Reading BlockHeader := do
  skip 1
  let (h, n) := blockMarks (← rest)
  skip n
  expect (atSpace (← rest))
  lineEnd
  return h

/-- Blank lines; of every line at most `indent` spaces are passed over. -/
def blankLines (indent : Nat) : (fuel : Nat) → Reading (List Char)
  | 0 => return []
  | fuel + 1 => do
    let s ← get
    skip (min (s.rest.takeWhile (· == ' ')).length (indent - s.column))
    match ← lineBreak? with
    | some c => return c :: (← blankLines indent fuel)
    | none => return []

/-- The widest indentation among the blank lines at the beginning and the first
line of text. -/
def detectIndent : (line widest : Nat) → List Char → Nat
  | line, widest, c :: cs =>
    if c == ' ' then detectIndent (line + 1) (max widest (line + 1)) cs
    else if isBreak c then detectIndent 0 widest cs
    else widest
  | _, widest, [] => widest

/-- The lines of text; `tail` holds the line breaks since the last one. -/
def blockLines (fold : Bool) (indent : Nat) : (fuel : Nat) → (done tail : List Char) →
    Reading (List Char × List Char × List Char)
  | 0, done, tail => return (done.reverse, [], tail)
  | fuel + 1, done, tail => do
    let line ← takeWhile (!isBreak ·)
    let done := line.reverse ++ tail.reverse ++ done
    let first := (← lineBreak?).toList
    let more ← blankLines indent ((← rest).length + 1)
    let s ← get
    if s.column = indent ∧ !s.rest.isEmpty then
      let joins := fold && first == ['\n'] && !line.head?.any isSpace && !s.rest.head?.any isSpace
      let gap := if joins then (if more.isEmpty then [' '] else more) else first ++ more
      blockLines fold indent fuel done gap
    else return (done.reverse, first, more)

/-- A block scalar in a collection whose entries begin at column `parent`. -/
def block (fold : Bool) (parent : Int) : Reading String := do
  let h ← blockHeader
  let least := (max (parent + 1) 1).toNat
  let widest := detectIndent 0 0 (← rest)
  let indent := match h.indent with
    | some n => least + n - 1
    | none => max least widest
  let before ← blankLines indent ((← rest).length + 1)
  let s ← get
  let (text, first, more) ←
    if s.column = indent ∧ !s.rest.isEmpty then blockLines fold indent s.rest.length [] before
    else pure ([], [], before)
  return String.ofList (match h.chomping with
    | .strip => text
    | .clip => text ++ first
    | .keep => text ++ first ++ more)

end Reading

end Ecash.Yaml
