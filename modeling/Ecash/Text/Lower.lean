import Ecash.Text.Table

/-!
# Lower case

Most letters have one small form, by which `lowered` replaces them. The dotted
capital I becomes two characters, and a capital sigma takes its final form at
the end of a word.
-/
namespace Ecash.Text

namespace Lower

/-- Letters with a small form: the distance from the letters before, twice the
number of letters plus one if they are every other one, and the distance of
their small forms, twice it or, if those come earlier, twice it less one. -/
def table : List Nat := Table.read
  ["CnCaCmDxBuCmboCmBhBxcdhccrccBvcbcJhahcdcQeafcbcPwaccbePuaccccGcacPoacPqaccbcPuacPybcQgacQcaccd",
   "cQgacQkbcQmahcbcQuaccbcQucccbcQuaccbeQsafcbcQwaccdcchceaccbceaccbceatcctccceafcbcHlacEhaBpcbcJ",
   "zbtchcBFYkaccbcMnacBFYecccbcOzacFiacFmalcLdfcdccicIygcCybgCwbcEybeEwbBiCmbsCmBjcqizcfcEpcccbcn",
   "acccgJzaBgGeaCmCmBwBjcjCdcbcBeapccDtccCyDsEHdCyVMubcVMufcVMuBBuGeEKZoamqDGsDiIXjcgIXjMiFvcjcWN",
   "tbDtcjqpimpkqpiqpimpljpiqpyqpiqpiqpiepaeFracrliGpacrlepaeHrmepaeIpacnleJvaeJracrLlcWGfdcYUvacY",
   "LngcCeBtBgBgtccBFmCaCaCSuDsDsBwccbcBFUjacLHjacBFTdchcbcBFXfacBFUvacBFXlacBFXjbcccccieBFZxaDxci",
   "fceccBTYjBvctBdcFfpcdClckfcbcEANvalceccbcEVChcfcdvcbcEVElacEVFhacEVEzacEVEfacEVElbcEVApacEVCla",
   "cEVAvacCTkarcbcDracEVEjacEARvafcgccffcBcccBHAhCaCmBUzDcDcFgCuDcGawDabBeDaboDabeDaCQcDyEyENlCmC",
   "mBGJwCmCmBULkCqCq"]

/-- Letters every `step` code points whose small forms lie `shift` further. -/
structure Row where
  first : Nat
  last : Nat
  step : Nat
  shift : Int
  deriving DecidableEq, Repr

def rows (pos : Nat) : List Nat → List Row
  | gap :: size :: code :: rest =>
    let step := size % 2 + 1
    let last := pos + gap + (size / 2 - 1) * step
    let shift : Int := if code % 2 = 0 then code / 2 else -((code + 1) / 2)
    ⟨pos + gap, last, step, shift⟩ :: rows (last + 1) rest
  | _ => []

def allRows : List Row := rows 0 table

/-- The small form of a code point, which may be its own. -/
def point (n : Nat) : Nat :=
  match allRows.find? fun r => r.first ≤ n && n ≤ r.last with
  | some r => if (n - r.first) % r.step = 0 then (n + r.shift).toNat else n
  | none => n

/-- Letters that have a case. -/
def cased : List Table.Run := Table.spans 0 (Table.read
  ["CnBagBaBvbkbebfxbBfbHnbeeIabBbHkeccddbbgbbdbbbubDfbFjiGkbBmjBpEFfBmbbfbcBrcdZwDicgDFujhBrcdCmB",
   "sClnbBiDxKscgcBmcgcibbbbbbbBfcCbbhbbddbhdecgenfdbhKbbebckbbdfgbbbbbbebgebceffebrBgdcBFlCaCRuEu",
   "cDzgedcmBmbbfbBTWcBusBcFeDabxdebChfcbbbfBbcdbBFpBrfjhDcBEAihmfBNtBagBaBTtDcDsBkeBkEmlbpbhbcblb",
   "pbhbcCOpBznBzEKzCmBGIqCmBMLkDhbCtbccbcccebmbbbhbCnbecibhbBcbebfbbdhbNcczbzbBfbzbBfbzbBfbzbBfbz",
   "biCSykbuDThCqDAaBagBagBa"])

/-- Characters that count for nothing between the letters of a word. -/
def ignorable : List Table.Run := Table.spans 0 (Table.read
  ["BnbgblbBjbbbCtbebbbebccTjHkecebjcbbJrhHzbfbBxBtbbbcbcbbBsblgklbbBjbkvqbDxibkbeBhbbbBeBbDnlCgle",
   "bcbyyBrdBsbhcgiBpCgCdbbbeiebdhkcnbpbCgbeeibucBabccCfbececcddbBecdblcCfbefbcebucwgbbCgbcbbeibhc",
   "lcBebCjbmbBybdbCdbbdfdbehclcBdbCgbcbgbfcucBccCfceeibucBdbCubhdbbDmbchljDubcjjbbgCwcBbbbbbbCdob",
   "fbcflbBkjbDyebgbccczcedqenbccgbpbDqbXkdBKkdBdcBecBecCmcbhibcldbfbBtfBzbCncBibEodecjbgdIlccbCgb",
   "bhbbbbcigkcbBnbiBfBxeBwbbfbbfbBojmcBgeccbdCebbcdbbdCgiccCmgDedbnbhebgbdcByClnbBiDxRdbbdldndndn",
   "cmfickbcbcfBxfbkbbnbqnBzBhEJrcEjdEvbpbDsBgBvbSbbBkedffbDpgDpdBQBubBWcgKkbDuebkbbBceDccoBiDabxd",
   "DzddcibdbebzcfbFvcBasnbBmizlBudBwbceccrbvcCogccccmbibBjblbBzbbdccfcbbBbbocfcbbDwfjdErbcbebBDZs",
   "bFrrWbqdbmqBibcbGnbhbgblbBjbbbBvbBtcCpbvdTtbIsbFtfBNpgbBqbjWkdbcfeBodebGjcWbeOxcFxlBxeEtbCcpBp",
   "bcckdBxecccbebkbBydBkfbiCkbmcCajkecbDrdcbbcgbGebdivcCfcdbBlhdfHnicdbbxbDggbbecbcJeegcbcBbcDhic",
   "bbcEcbbbcgbbDxdcebfJzjbcJwcbbebFoeccebBgkBogceibjgcdBunbcPqhbgbbDewchbcbcEsgdbbcbhbbCucdbbbNjc",
   "IBbjUStfChhjeBNvbClrCmcbcYGpebhbcEUgcbeGYuBucxUydjqchBeeFsdCYdCdeByibobwfbpCAihbrchbcbfKboOebC",
   "jeCFwhEfiEBffBSXXpbBeDsEyJg"])

def isCased (c : Char) : Bool := Table.holds cased c.toNat

def isIgnorable (c : Char) : Bool := Table.holds ignorable c.toNat

/-- The word goes on. -/
def continues (cs : List Char) : Bool := (cs.dropWhile isIgnorable).head?.any isCased

/-- The small form of a text; `inWord` tells whether a word has begun. -/
def text (inWord : Bool) : List Char → List Char
  | [] => []
  | c :: cs =>
    let next := if isIgnorable c then inWord else isCased c
    if c.toNat = 0x3A3 then
      Char.ofNat (if inWord && !continues cs then 0x3C2 else 0x3C3) :: text next cs
    else if c.toNat = 0x130 then 'i' :: Char.ofNat 0x307 :: text next cs
    else Char.ofNat (point c.toNat) :: text next cs

end Lower

/-- The text in lower case. -/
def lowered (s : String) : String := String.ofList (Lower.text false s.toList)

end Ecash.Text
