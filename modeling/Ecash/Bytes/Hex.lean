/-!
# Bytes in hexadecimal

`hex` writes two lower-case digits a byte. `ofHex?` reads either case and
skips ASCII blanks between bytes, never inside one.
-/
namespace Ecash

-- Powers are core's own, whatever else is imported.
attribute [local instance (high)] instPowNat

/-- A string of bytes. -/
abbrev Bytes := List UInt8

namespace Bytes

/-- The digit for a number below sixteen. -/
def hexDigit (n : Nat) : Char := Nat.digitChar n

/-- The value of a hexadecimal digit. -/
def hexValue? (c : Char) : Option Nat :=
  if '0' ≤ c ∧ c ≤ '9' then some (c.toNat - 48)
  else if 'a' ≤ c ∧ c ≤ 'f' then some (c.toNat - 87)
  else if 'A' ≤ c ∧ c ≤ 'F' then some (c.toNat - 55)
  else none

/-- Blanks that may stand between two bytes. -/
def isGap (c : Char) : Bool := c == ' ' || (0x09 ≤ c.toNat && c.toNat ≤ 0x0D)

/-- The two digits of a byte. -/
def byteHex (b : UInt8) : List Char := [hexDigit (b.toNat / 16), hexDigit (b.toNat % 16)]

/-- Lower-case hexadecimal. -/
def hex (bs : Bytes) : String := String.ofList (bs.flatMap byteHex)

/-- Reads hexadecimal. -/
def ofHexChars? : List Char → Option Bytes
  | [] => some []
  | [c] => if isGap c then some [] else none
  | c :: d :: rest =>
    if isGap c then ofHexChars? (d :: rest)
    else do
      let hi ← hexValue? c
      let lo ← hexValue? d
      let bs ← ofHexChars? rest
      return UInt8.ofNat (16 * hi + lo) :: bs

/-- Reads hexadecimal. -/
def ofHex? (s : String) : Option Bytes := ofHexChars? s.toList

/-- The number with these big-endian bytes. -/
def toNat (bs : Bytes) : Nat := bs.foldl (fun n b => n * 256 + b.toNat) 0

/-- The `n` low bytes of a number, the most significant first. -/
def ofNat (n value : Nat) : Bytes :=
  (List.range n).map fun i => UInt8.ofNat (value / 256 ^ (n - 1 - i))

/-- The `n` low bytes of a number, the least significant first. -/
def ofNatLittle (n value : Nat) : Bytes := (ofNat n value).reverse

/-- The UTF-8 bytes of a text of characters only. -/
def ofText (s : String) : Bytes := s.toList.flatMap String.utf8EncodeChar

theorem length_ofNat (n value : Nat) : (ofNat n value).length = n := by simp [ofNat]

theorem hexValue?_hexDigit {n : Nat} (h : n < 16) : hexValue? (hexDigit n) = some n := by
  revert n; decide

theorem isGap_hexDigit {n : Nat} (h : n < 16) : isGap (hexDigit n) = false := by
  revert n; decide

/-- Reading gives back what was written. -/
theorem ofHexChars?_flatMap (bs : Bytes) : ofHexChars? (bs.flatMap byteHex) = some bs := by
  induction bs with
  | nil => rfl
  | cons b bs ih =>
    have hb : b.toNat < 256 := b.toNat_lt
    simp only [List.flatMap_cons, byteHex, List.cons_append, List.nil_append, ofHexChars?,
      isGap_hexDigit (show b.toNat / 16 < 16 by omega), hexValue?_hexDigit (show b.toNat / 16 < 16 by omega),
      hexValue?_hexDigit (show b.toNat % 16 < 16 by omega)]
    have : 16 * (b.toNat / 16) + b.toNat % 16 = b.toNat := by omega
    simp only [ih, bind, Option.bind, pure, this, UInt8.ofNat_toNat]
    rfl

theorem ofHex?_hex (bs : Bytes) : ofHex? bs.hex = some bs := by
  simp [ofHex?, hex, ofHexChars?_flatMap]

end Bytes

end Ecash
