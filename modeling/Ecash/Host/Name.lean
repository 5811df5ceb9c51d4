import Ecash.Host.Address
import Ecash.Host.Label
import Ecash.Text.Half
import Ecash.Text.Lower

/-!
# Hosts

A host is an address in numbers or a name. A name in ASCII is sent in small
letters with other characters percent-encoded, any other name label by label.
-/
namespace Ecash.Host

/-! ## Percent-encoding -/

def upperHex (n : Nat) : Char := if n < 10 then Char.ofNat (48 + n) else Char.ofNat (55 + n)

/-- A byte as `%` and two upper-case digits. -/
def encodeByte (b : UInt8) : List Char := ['%', upperHex (b.toNat / 16), upperHex (b.toNat % 16)]

/-- A character as the bytes of its UTF-8 form, if it may not stand as it is. -/
def encodeChar (allowed : Char → Bool) (c : Char) : List Char :=
  if allowed c then [c] else (String.utf8EncodeChar c).flatMap encodeByte

/-- ASCII characters that a name may hold as they are. -/
def inName (c : Char) : Bool := c.isAlphanum || "-._~!$&'()*+,;=\"`\x7b\x7d%|\\".toList.contains c

/-! ## Hosts -/

def isAscii (c : Char) : Bool := c.toNat < 128

/-- Brackets around something. -/
def inner? : List Char → Option (List Char)
  | '[' :: cs => if cs.getLast? = some ']' then some cs.dropLast else none
  | _ => none

/-- A host as it is sent, an address without its brackets. -/
def sent? (host : List Char) : Option (List Char) :=
  if host.isEmpty then some []
  else if looksLikeFourBytes host then (if isFourBytes host then some host else none)
  else
    match inner? host with
    | some address => if isEightGroups address then some address else none
    | none =>
      if host.all isAscii then some ((host.map Char.toLower).flatMap (encodeChar inName))
      else Label.nameSent? (Text.points (Text.Lower.text false host))

/-- What is wrong with a host, sent in this way, whose first label is encoded. -/
def encodedFlaw? (host : List Char) : Option Flaw :=
  let ns := Text.points host
  if Label.lead.isPrefixOf ns then Label.nameFlaw? ns else none

end Ecash.Host
