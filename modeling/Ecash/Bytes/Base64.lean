import Ecash.Bytes.Hex

/-!
# Base 64

Four characters of six bits each stand for three bytes. Other characters are
passed over, and so are equals signs where a group may not end; where it may,
enough of them end the text.
-/
namespace Ecash.Bytes

/-- The six bits of a character. -/
def sixBits? (c : Char) : Option Nat :=
  if 'A' ≤ c ∧ c ≤ 'Z' then some (c.toNat - 65)
  else if 'a' ≤ c ∧ c ≤ 'z' then some (c.toNat - 71)
  else if '0' ≤ c ∧ c ≤ '9' then some (c.toNat + 4)
  else if c = '+' then some 62
  else if c = '/' then some 63
  else none

/-- The whole bytes of a group of at most four characters. -/
def groupBytes (sixes : List Nat) : Bytes :=
  let n := (sixes ++ List.replicate (4 - sixes.length) 0).foldl (fun n d => n * 64 + d) 0
  (ofNat 3 n).take (sixes.length * 6 / 8)

/-- Reads the characters after those of an unfinished group, which had `pads`
equals signs at its end. -/
def ofBase64From (group : List Nat) (pads : Nat) : List Char → Option Bytes
  | [] => if group.isEmpty then some [] else none
  | c :: cs =>
    if c = '=' then
      if 2 ≤ group.length then
        if 4 ≤ group.length + pads + 1 then some (groupBytes group) else ofBase64From group (pads + 1) cs
      else ofBase64From group pads cs
    else
      match sixBits? c with
      | none => ofBase64From group pads cs
      | some d =>
        let more := group ++ [d]
        if more.length = 4 then (ofBase64From [] 0 cs).map (groupBytes more ++ ·) else ofBase64From more 0 cs

/-- The bytes that a text stands for; none if its last group is too short. -/
def ofBase64? (cs : List Char) : Option Bytes := ofBase64From [] 0 cs

example : ofBase64? "aGk=".toList = some [0x68, 0x69] ∧ ofBase64? "aG k\n".toList = none := by decide +kernel
example : ofBase64? "NQ==junk".toList = some [0x35] ∧ ofBase64? "=NQ=".toList = none := by decide +kernel

end Ecash.Bytes
