import Ecash.Bytes.Unicode
import Ecash.Mint.Url
import Ecash.Payload
import Ecash.Settings.Wallet

/-!
# Talking to a mint

A call becomes an HTTP request, and the answer to the request becomes the reply
to the call. Whoever carries requests back and forth needs to know neither.
-/
namespace Ecash.Mint

/-- A request. Without a body it only asks. -/
structure HttpRequest where
  url : String
  body : Option Json
  /-- Sent in the header `Clear-auth`. -/
  authToken : Option String
  deriving DecidableEq, Repr

def HttpRequest.method (r : HttpRequest) : String := if r.body.isSome then "POST" else "GET"

/-- The address says what it is an address of: a colon stands before any slash,
and something before the colon. -/
def HttpRequest.namesScheme (r : HttpRequest) : Bool :=
  match r.url.toList.span fun c => c != ':' && c != '/' with
  | (_ :: _, ':' :: _) => true
  | _ => false

/-- What the address shows in place of a host: what follows two slashes after the scheme. -/
def HttpRequest.shownHost (r : HttpRequest) : List Char :=
  match (Url.cutScheme r.url.toList).2 with
  | '/' :: '/' :: cs => cs.takeWhile fun c => c != '/' && c != '?' && c != '#'
  | _ => []

/-- A response can be attributed to the address: its scheme is named, and
brackets in its host are those of an address in numbers. -/
def HttpRequest.isAttributable (r : HttpRequest) : Bool := r.namesScheme && Host.bracketsFit r.shownHost

/-- What comes of a request. -/
inductive HttpAnswer where
  | response (status : Int) (text : String)
  | fault (f : TransportFault)
  | refusedUrl
  deriving DecidableEq, Repr

/-- A client; it is connected once its base address has been read. -/
structure Client where
  settings : Settings.Mint
  address : Option Url
  deriving Repr

namespace Client

def fresh (settings : Settings.Mint) : Client := ⟨settings, none⟩

/-- The mint's address without slashes at its end. -/
def url (c : Client) : String := String.ofList (Text.dropTail (· == '/') c.settings.url.toList)

def isConnected (c : Client) : Bool := c.address.isSome

/-- Reads the base address. What is sent in a header has to be ASCII. -/
def connect (c : Client) : Outcome Client := do
  let base ← Url.base c.url
  if c.settings.authToken.toList.all Host.isAscii then return { c with address := some base }
  else .error .notEncodable

def close (c : Client) : Client := { c with address := none }

/-! ## Requests -/

/-- Path and body of the request for a call. -/
def route : MintCall → String × Option Json
  | .keysets => ("/v1/keysets", none)
  | .keys id => (if id.truthy then "/v1/keys/" ++ id.shown else "/v1/keys", none)
  | .swap q => ("/v1/swap", some q.toJson)
  | .mint q => ("/v1/mint/bolt11", some q.toJson)
  | .melt q => ("/v1/melt/bolt11", some q.toJson)
  | .restore os => ("/v1/restore", some (.obj [("outputs", outputsJson os)]))
  | .checkState ys => ("/v1/checkstate", some (.obj [("Ys", .arr (ys.map .str))]))
  | .mintQuote amount unit description =>
    ("/v1/mint/quote/bolt11", some (.obj ([("amount", .int amount), ("unit", unit)]
      ++ if description.truthy then [("description", description)] else [])))
  | .meltQuote request unit =>
    ("/v1/melt/quote/bolt11", some (.obj [("request", request), ("unit", unit)]))

/-- The bytes of a body, which has no form for numbers that are not finite. -/
def bodyBytes (body : Json) : Outcome Bytes :=
  if body.isFinite then Bytes.encode body.compactWide else .error .unreadable

/-- The request for a call.
mirrors mint/client:117-246 -/
def request (c : Client) (call : MintCall) : Outcome HttpRequest :=
  match c.address with
  | none => refuse .notConnected
  | some base => do
    let (path, body) := route call
    let url ← base.join path
    let _ ← body.mapM bodyBytes
    let token := c.settings.authToken
    match Host.encodedFlaw? url.host with
    | some flaw => .error (.badLabel flaw)
    | none =>
      if url.host.all Host.isAscii then
        return ⟨url.text, body, if token = "" then none else some token⟩
      else .error .notEncodable

/-! ## Replies -/

/-- The value that a body stands for, in whatever encoding. -/
def bodyJson (text : String) : Outcome Json := do
  match Bytes.jsonText? (← Bytes.encode text) with
  | some s => Json.read s
  | none => .error .notText

/-- What a refusal says: its member `detail`, or all of it.
mirrors mint/client:256-268 -/
def refusal (operation : String) (status : Int) (text : String) : WalletError :=
  match bodyJson text with
  | .ok (.obj ms) =>
    .refused operation status ((Json.obj ms).memberOr "detail" (.str text))
      ((Json.obj ms).memberOr "code" .null)
  | _ => .refused operation status (.str text) .null

/-- The object in an answer; any other value counts as an empty one.
mirrors mint/client:243-254 -/
def answered (operation : String) : HttpAnswer → Outcome Json
  | .response status text =>
    if status ≠ 200 then refuse (refusal operation status text)
    else do
      match ← bodyJson text with
      | .obj ms => return .obj ms
      | _ => return .obj []
  | .fault f => refuse (.unanswered operation f)
  | .refusedUrl => .error .badUrl

/-- What a member lists; a missing one lists nothing. -/
def listOf {α : Type} (read : Json → Outcome α) (name : String) (v : Json) : Outcome (List α) :=
  (v.memberOr name (.arr [])).readList read

/-- The reply in an object.
mirrors mint/client:117-222, mint/client:271-272 -/
def readReply (v : Json) : (call : MintCall) → Outcome call.Reply
  | .keysets | .keys _ => listOf Keyset.ofJson "keysets" v
  | .swap _ | .mint _ => listOf BlindedSignature.ofJson "signatures" v
  | .melt _ => MeltQuote.ofJson v
  | .restore _ => do
    let known ← listOf BlindedMessage.ofJson "outputs" v
    let signatures ← (v.memberOr "signatures" (v.memberOr "promises" (.arr []))).readList
      BlindedSignature.ofJson
    return (known, signatures)
  | .checkState _ => listOf ProofState.ofJson "states" v
  | .mintQuote .. => MintQuote.ofJson v
  | .meltQuote request _ => do
    let q ← MeltQuote.ofJson v
    return { q with request := q.request.orElse request }

/-- The reply to a call, from the answer to its request. -/
def reply (call : MintCall) (a : HttpAnswer) : Outcome call.Reply := do
  readReply (← answered call.operation a) call

/-- The reply to a call that was sent as a request. A response counts only if it
can be attributed to the address. -/
def received (r : HttpRequest) (call : MintCall) (a : HttpAnswer) : Outcome call.Reply :=
  match a with
  | .response .. => if r.isAttributable then reply call a else .error .unreadable
  | _ => reply call a

end Client

end Ecash.Mint
