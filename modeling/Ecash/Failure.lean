import Ecash.Curve.Encoding
import Ecash.Error
import Ecash.Host.Flaw
import Ecash.Text.Quoted

/-!
# Failures

Everything that can end a computation of this library: a refusal of the
wallet, or a value that has no meaning where it stands.
-/
namespace Ecash

/-- Why a key or a secret cannot be derived. -/
inductive DerivationError where
  | scalarOutOfRange
  | seedLength (n : Nat)
  | seedOutOfRange
  | childTooLarge
  | childZero
  | noPoint
  | negativeCounter (counter : Int)
  | unsupportedId (id : String)
  | unknownVersion (version : String)
  | scalarZero
  deriving DecidableEq, Repr

/-- The wording of the error. -/
def DerivationError.message : DerivationError → String
  | .scalarOutOfRange => "Private key out of range"
  | .seedLength n => s!"Seed must be 16-64 bytes, got {n}"
  | .seedOutOfRange => "Invalid seed (derived key out of range)"
  | .childTooLarge => "Derived key is invalid (il >= curve order)"
  | .childZero => "Derived key is invalid (key == 0)"
  | .noPoint => "No valid point found"
  | .negativeCounter c => s!"Counter must not be negative, got {c}"
  | .unsupportedId id => "Unsupported keyset id format: " ++ Text.quoted id
  | .unknownVersion v => "Unrecognized keyset id version " ++ v
  | .scalarZero => "Derived invalid blinding scalar r == 0"

/-- What ends a computation. -/
inductive Failure where
  /-- The wallet refuses. -/
  | wallet (e : WalletError)
  /-- Bytes that are no point, or a point without bytes. -/
  | point (e : Curve.PointError)
  /-- A key or secret that cannot be derived. -/
  | derivation (e : DerivationError)
  /-- An object lacks a member, or a list of words this one. -/
  | missing (name : String)
  /-- A value of a kind that has no meaning here. -/
  | wrongKind
  /-- Something that is no object where an object is needed. -/
  | notObject
  /-- A text that is no number, no bytes, or no state. -/
  | unreadable
  /-- A number that does not fit. -/
  | tooLarge
  /-- A child index outside 32 bits. -/
  | indexRange
  /-- Bytes that are no text. -/
  | notText
  /-- A text that has no bytes, or not in the character set in use. -/
  | notEncodable
  /-- A numeral of which nothing is left. -/
  | emptyNumeral
  /-- Values nested too deeply. -/
  | tooDeep
  /-- A body that is no JSON. -/
  | notJson
  /-- A URL that no request can be sent to. -/
  | badUrl
  /-- A host whose encoded name cannot be read. -/
  | badLabel (flaw : Host.Flaw)
  /-- Settings with invalid members: where, and what is wrong there. -/
  | invalid (errors : List (String × String))
  /-- A setting of the environment that is no JSON. -/
  | unreadableSetting
  /-- A settings file that is no YAML. -/
  | notYaml
  deriving DecidableEq, Repr

/-- A computation that may fail. -/
abbrev Outcome (α : Type) := Except Failure α

/-- Ends with a refusal. -/
def refuse {α : Type} (e : WalletError) : Outcome α := .error (.wallet e)

/-- A refusal of one of the given kinds. -/
def Failure.ofKind (kinds : List ErrorKind) : Failure → Bool
  | .wallet e => kinds.contains e.kind
  | _ => false

end Ecash
