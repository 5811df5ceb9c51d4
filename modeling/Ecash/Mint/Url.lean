import Ecash.Failure
import Ecash.Host.Name
import Ecash.Text.Numeral

/-!
# Addresses

Just enough of URLs to join a mint's address and the path of a call. Characters
that may not stand in a component are percent-encoded, control characters are
refused, and a path is rid of its dot segments.
-/
namespace Ecash.Mint

/-- The components of a URL; an empty scheme, user or host is none. -/
structure Url where
  scheme : List Char
  user : List Char
  host : List Char
  service : Option Int
  path : List Char
  query : Option (List Char)
  fragment : Option (List Char)
  deriving DecidableEq, Repr

namespace Url

/-! ## Percent-encoding -/

/-- Percent-encodes all characters but the allowed ones. -/
def encode (allowed : Char → Bool) (cs : List Char) : Outcome (List Char) :=
  List.flatten <$> (Text.points cs).mapM fun n =>
    if Text.isHalf n then .error .notEncodable else .ok (Host.encodeChar allowed (Char.ofNat n))

/-- Visible ASCII other than the given characters. -/
def visibleBut (excluded : String) (c : Char) : Bool := '!' ≤ c && c ≤ '~' && !excluded.toList.contains c

/-- What may stand in a query. -/
def inQuery : Char → Bool := visibleBut "\"#<>"

/-- What may stand in a path. -/
def inPath : Char → Bool := visibleBut "\"#<>?`\x7b\x7d"

/-- What may stand in a fragment. -/
def inFragment : Char → Bool := visibleBut "\"<>`"

/-- What may stand in a user's name and password. -/
def inUser : Char → Bool := visibleBut "\"#<>?`\x7b\x7d/;=@[\\]^|"

/-! ## Paths -/

/-- Drops `.` segments, and `..` segments with the one before; `done` holds the
segments kept so far, the last one first. -/
def dropDots : (done : List (List Char)) → List (List Char) → List (List Char)
  | done, [] => done.reverse
  | done, s :: rest =>
    if s = ['.'] then dropDots done rest
    else if s = ['.', '.'] then dropDots (if done = [[]] then done else done.drop 1) rest
    else dropDots (s :: done) rest

/-- A path without dot segments. -/
def normalPath (path : List Char) : List Char :=
  let segments := path.splitOn '/'
  if ['.'] ∈ segments ∨ ['.', '.'] ∈ segments then
    ['/'].intercalate (dropDots [] segments)
  else path

/-! ## Reading -/

/-- The part before the first `c`, and the part after it if there is one. -/
def cut (c : Char) (cs : List Char) : List Char × Option (List Char) :=
  match cs.dropWhile (· != c) with
  | [] => (cs, none)
  | _ :: rest => (cs.takeWhile (· != c), some rest)

/-- The part before the last `c` if there is one, and the part after it. -/
def cutLast (c : Char) (cs : List Char) : Option (List Char) × List Char :=
  match cut c cs.reverse with
  | (_, none) => (none, cs)
  | (tail, some head) => (some head.reverse, tail.reverse)

def isSchemeChar (c : Char) : Bool := c.isAlphanum || c == '+' || c == '.' || c == '-'

/-- A scheme before a colon; it may be empty. -/
def cutScheme (cs : List Char) : List Char × List Char :=
  match cut ':' cs with
  | (scheme, some rest) =>
    if scheme.all isSchemeChar && scheme.head?.all Char.isAlpha then (scheme, rest) else ([], cs)
  | _ => ([], cs)

/-- The service number that a scheme implies. -/
def impliedService (scheme : List Char) : Option Int :=
  match String.ofList scheme with
  | "ftp" => some 21
  | "http" | "ws" => some 80
  | "https" | "wss" => some 443
  | _ => none

/-- A host, and the service that follows it after a colon. -/
def cutService (cs : List Char) : List Char × List Char :=
  let bracketed := match cs, cutLast ']' cs with
    | '[' :: _, (some address, rest) => some (address ++ [']'], rest)
    | _, _ => none
  let (host, rest) := bracketed.getD (cs.takeWhile (· != ':'), cs.dropWhile (· != ':'))
  (host, if rest.head? = some ':' then rest.tail else rest)

/-- A service number; the one that the scheme implies goes without saying. -/
def readService (scheme service : List Char) : Outcome (Option Int) :=
  if service.isEmpty then .ok none
  else
    match Text.readInt? 10 service with
    | none => .error .badUrl
    | some n => .ok (if impliedService scheme = some n then none else some n)

/-- Longest component that is read. -/
def maxLength : Nat := 65536

/-- Not too long, and without control characters. -/
def isClean (cs : List Char) : Bool :=
  decide ((Text.points cs).length ≤ maxLength) && cs.all fun c => 0x20 ≤ c.toNat && c.toNat ≠ 0x7F

/-- A path that is read as a path after the given components. -/
def isPathAfter (scheme : List Char) (hasHost : Bool) (path : List Char) : Bool :=
  match path with
  | [] => true
  | '/' :: '/' :: _ => !scheme.isEmpty || hasHost
  | '/' :: _ => true
  | ':' :: _ => !scheme.isEmpty && !hasHost
  | _ => !hasHost

/-- Brings components into their normal form. -/
def normal (scheme authority path : List Char) (query fragment : Option (List Char)) : Outcome Url := do
  let scheme := scheme.map Char.toLower
  let (user, rest) := cutLast '@' authority
  let (host, service) := cutService rest
  let user ← encode inUser (user.getD [])
  match Host.sent? host with
  | none => .error .badUrl
  | some host =>
    let service ← readService scheme service
    let hasHost := !user.isEmpty || !host.isEmpty || service.isSome
    if !isPathAfter scheme hasHost path then .error .badUrl
    else
      let path ← encode inPath (if scheme.isEmpty && !hasHost then path else normalPath path)
      return ⟨scheme, user, host, service, path, ← query.mapM (encode inQuery),
        ← fragment.mapM (encode inFragment)⟩

/-- Reads a URL; it may be relative. -/
def parse (s : String) : Outcome Url :=
  let cs := s.toList
  if !isClean cs then .error .badUrl
  else
    let (rest, fragment) := cut '#' cs
    let (rest, query) := cut '?' rest
    let (scheme, rest) := cutScheme rest
    match rest with
    | '/' :: '/' :: rest =>
      normal scheme (rest.takeWhile (· != '/')) (rest.dropWhile (· != '/')) query fragment
    | _ => normal scheme [] rest query fragment

/-! ## Joining -/

/-- User, host and service as they are written. -/
def authority (u : Url) : List Char :=
  (if u.user = [] then [] else u.user ++ ['@'])
    ++ (if ':' ∈ u.host then '[' :: u.host ++ [']'] else u.host)
    ++ match u.service with | none => [] | some n => ':' :: (toString n).toList

/-- Path and query as they are sent. -/
def target (u : Url) : List Char :=
  (if u.path = [] then ['/'] else u.path) ++ match u.query with
    | none => []
    | some q => '?' :: q

/-- The same URL with another path and query. -/
def withTarget (u : Url) (target : List Char) : Outcome Url :=
  let (path, query) := cut '?' target
  let parts := [u.scheme, u.authority, path, query.getD [], u.fragment.getD []]
  if !parts.all isClean then .error .badUrl else normal u.scheme u.authority path query u.fragment

/-- A base address, which ends in a slash. -/
def base (s : String) : Outcome Url := do
  let u ← parse s
  if u.target.getLast? = some '/' then return u else u.withTarget (u.target ++ ['/'])

/-- The address of a path below a base address. -/
def join (b : Url) (path : String) : Outcome Url := do
  let p ← parse path
  b.withTarget (b.target ++ p.target.dropWhile (· == '/'))

/-- The written form. -/
def text (u : Url) : String :=
  String.ofList ((if u.scheme = [] then [] else u.scheme ++ [':'])
    ++ (if u.authority = [] then [] else '/' :: '/' :: u.authority) ++ u.path
    ++ (match u.query with | none => [] | some q => '?' :: q)
    ++ match u.fragment with | none => [] | some f => '#' :: f)

end Url

end Ecash.Mint
