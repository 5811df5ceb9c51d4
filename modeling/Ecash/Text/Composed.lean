import Ecash.Text.Table

/-!
# Composed letters

A letter with a mark can be written as one character or as two, and several
marks in any order. `composed` writes a text with as few characters as it can,
marks of different places in a fixed order. Only characters that may stand in
host names are listed; the syllables of Hangul among them are left as they are,
because the letters they consist of may not.
-/
namespace Ecash.Text.Composed

/-- Places at which marks stand. -/
def places : List Table.Run := Table.runs 0 (Table.read
  ["BDovIwabIyaeImabIyabIiafImacHuaeImacHualImafbaeImadIwcbIwdbIwadImadIwacImbdIwaeImabIwabIyacIma",
   "bIwabIzacJaabIzacJaabIzanIwKpfIwKfbImaeIwabImadIwabIoabImagIwagImacIwabImacIwabIoabIuabIwabkab",
   "labmabnaboabpabqabrabsactabuabvabwbbxbbyabzbbIwabImbbsCuiIwabBeabBfabBgBwbBbabBcabBdabBeabBfab",
   "BgabBhabBiacIwacImafIwabImacIwabImqbBjDxhIwceIwabImabIwccIwbbImacIwabImBjbBkBebIwabImacIwabIma",
   "cIwadImabIwacImabIwabImadIwabImabIwabImabIwabImabIwabImacIwGehIwabImabIwjbImyeIwbjIwbdIwbfIwBr",
   "dImCibIwadImaeIwBqfIwafImaoIwbbImacIwabImacIwabImadIwadImabBbabBcabBdadIwabImacIwacImafIwCibhq",
   "bjdbIwabImacIwDzbhqbjBwbIwCjbhqbjEgbhqbjEgbhqbjExbjEgbhqbjhbDgabDnDxbhqbjEfcjqbjEubjEfcDzabjne",
   "EdEecEoabjneEsCycImBbbImbbImbbIiCdbEzabFabbFcfeFacbFabcIwabjbcIwCkbImEibhbcjDebImBBrdIwBKmcjBe",
   "bjGbbjkbIwHvbIuFnbIoabIwabImIlbIwabImCtbjuiIwcbImBwfIwagImacIwabImbcImacIwacImafIwabImaeIwDxbh",
   "pbjBmbIwabImahIwCccjCgbhlcjCpbhFwdIwbbbafImacIwaeImabIwbhbebImgbIwdcIwHqcIwabImahIwabImacIwabJ",
   "aabIgabImabHuaBlIwabIyacIuabImabIkabIwabIzabImabIwabImFRbdIwFlbjDsBgIwVibIkabIuabIyabIoEdciBSQ",
   "ebIwekIwBgcIwDccIwKqbjBlbjFvbjBbsIwCfdImBlbjDrbhmbjJfbIwbcIwabImccIwfcIwbbIwCabjJmbjBDZsbBaBDp",
   "hIwahImacIwBLlbImIsbImFtfIwCMsbImbbIwBobIwabbabImebjGjbIwabImWbeIwOxcIwFxcImadIwabImabIwaeImBx",
   "bIwabImabIwabImHkbjBpbjobjCfbjabhCrdIwBwcjCkbhCybjjbhEcbjabhGwbhabjDcchqbjyhIwdfIwHxbjdbhxbIwD",
   "vbjabhJrbjabhEwbjEobjabhElbjKjbjabhJycjebhGabjDfbjsbjDdbjQfbjJybhbcjDdbjBDHofbChhIwBUncgBDAybb",
   "NKjhIwbrIwchIwbcIwbfIwKbhIwOlbIwCjeIwCFwhImEfgIwabh"])

/-- Composed letters with their two parts: the distance from the one before,
the first part, the second. -/
def table : List Nat := Table.read
  ["IqDtBDobDtBDpbDtBDqbDtBDrbDtBDwbDtBDycDvBFbbDxBDobDxBDpbDxBDqbDxBDwbEbBDobEbBDpbEbBDqbEbBDwcEg",
   "BDrbEhBDobEhBDpbEhBDqbEhBDrbEhBDwdEnBDobEnBDpbEnBDqbEnBDwbErBDpcErBDwcDtBDscDtBDucDtBFccDvBDpc",
   "DvBDqcDvBDvcDvBEacDwBEaeDxBDscDxBDucDxBDvcDxBFccDxBEacDzBDqcDzBDucDzBDvcDzBFbcEaBDqeEbBDrcEbBD",
   "scEbBDucEbBFcgEcBDqcEdBFbdEeBDpcEeBFbcEeBEagEgBDpcEgBFbcEgBEafEhBDscEhBDucEhBDzeEkBDpcEkBFbcEk",
   "BEacElBDpcElBDqcElBFbcElBEacEmBFbcEmBEaeEnBDrcEnBDscEnBDucEnBDycEnBDzcEnBFccEpBDqcErBDqdEsBDpc",
   "EsBDvcEsBEaBjEhBEppEnBEpBeDtBEacEbBEacEhBEacEnBEacJsBDscJsBDpcJsBEacJsBDodIuBDscVfBDscIwBDseDz",
   "BEacEdBEacEhBFccSxBDscZiBEabEcBEafDzBDpeEgBDocIvBDpcIwBDpcJoBDpcDtBEdcDtBEfcDxBEdcDxBEfcEbBEdc",
   "EbBEfcEhBEdcEhBEfcEkBEdcEkBEfcEnBEdcEnBEfcElBFacEmBFaeEaBEaiDtBDvcDxBFbcJmBDscJlBDscEhBDvcVnBD",
   "scErBDsNlBLiBDpBcBKjBDpbBKnBDpbBKpBDpbBKrBDpbBLjBDpBaBKrBDwbBLdBDwbBKxBDpbBLdBDpbBLhBDpEdBPoBD",
   "uxBPlBDobBPlBDwcBPjBDpeBQsBDwfBPqBDpbBPoBDobBPzBDuzBRxBEdCxBPmBDupBPgBDucBPgBDweBPlBDueBVtBDwc",
   "BPmBDwcBPnBDweBPoBDscBPoBDwcBPuBDweBWjBDwcBQjBDwcBPzBDscBPzBDwcBPzBDzcBQdBDweBQhBDwLlCIpCKhbCI",
   "pCKibCJwCKibCIpCKjbCJyCKiFyCPhCKicCOnCKirCPeCKiXaDMeDMyiDMmDMydDMpDMyFvDShDRybDShDSxOqEHbEHqdE",
   "HbEGsbEHbEHrCuEJyEMpCcELyELqbELzELqbELyEMpEuEQwERmEqEVnEWjhEVuEWjbEVuEWkcEVuEVqbEVyEWjExFAsFAk",
   "bFAtFAkbFAsFBjFmFGjFFucFGjFFzbFGmFFubFGjFGpWmGCzGDiEDcKGbKHxcKGdKHxcKGfKHxcKGhKHxcKGjKHxeKGnKH",
   "xBpKIcKHxcKIeKHxdKIgKHxbKIhKHxcKIkKHxBBaDtBEzcDuBDvcDuBExcDuBFlcIxBDpcDwBDvcDwBExcDwBFlcDwBFbc",
   "DwBFhcKpBDocKpBDpcDxBFhcDxBFkcVhBDucDyBDvcDzBDscEaBDvcEaBExcEaBDwcEaBFbcEaBFicEbBFkcJfBDpcEdBD",
   "pcEdBExcEdBFlcEeBExcLLnBDscEeBFlcEeBFhcEfBDpcEfBDvcEfBExcEgBDvcEgBExcEgBFlcEgBFhcJlBDpcJlBDwcM",
   "vBDocMvBDpcEiBDpcEiBDvcEkBDvcEkBExcLMxBDscEkBFlcElBDvcElBExcNjBDvcNpBDvcLNfBDvcEmBDvcEmBExcEmB",
   "FlcEmBFhcEnBEycEnBFkcEnBFhcNxBDpcNzBDwcEoBDrcEoBExcEpBDocEpBDpcEpBDwcEpBDvcEpBExcEqBDvcEqBDwcE",
   "rBDvcEsBDqcEsBExcEsBFlbEaBFlbEmBDwbEpBDybErBDyiDtBExcDtBDxcIsBDpcIsBDocIsBDxcIsBDrcLPpBDqcJzBD",
   "pcJzBDocJzBDxcJzBDrcLPpBDucDxBExcDxBDxcDxBDrcJaBDpcJaBDocJaBDxcJaBDrcLQnBDqcEbBDxcEbBExcEhBExc",
   "EhBDxcJkBDpcJkBDocJkBDxcJkBDrcLRhBDqcQbBDpcQbBDocQbBDxcQbBDrcQbBExcEnBExcEnBDxcQqBDpcQqBDocQqB",
   "DxcQqBDrcQqBExcErBDocErBExcErBDxcErBDrhBKjBEhbBKjBEibLTgBDobLThBDobLTgBDpbLThBDpbLTgBGcbLThBGc",
   "jBKnBEhbBKnBEibLTwBDobLTxBDobLTwBDpbLTxBDplBKpBEhbBKpBEibLUmBDobLUnBDobLUmBDpbLUnBDpbLUmBGcbLU",
   "nBGcjBKrBEhbBKrBEibLVcBDobLVdBDobLVcBDpbLVdBDpbLVcBGcbLVdBGcjBKxBEhbBKxBEibLVsBDobLVtBDobLVsBD",
   "pbLVtBDplBLdBEhbBLdBEibLWiBDobLWjBDobLWiBDpbLWjBDpbLWiBGcbLWjBGcjBLhBEhbBLhBEibLWyBDobLWzBDobL",
   "WyBDpbLWzBDpbLWyBGcbLWzBGcjBKjBDocBKnBDocBKpBDocBKrBDocBKxBDocBLdBDocBLhBDoCaBKjBDubBKjBDsfBKj",
   "BGcqBKpBGckBKrBDubBKrBDsbBLiBDoeBKrBGcbBLiBGcjBLdBDubBLdBDsbBLjBDocBKzBEhbBKzBEibBLdBGcbBLjBGc",
   "pBLhBGcGEwSHnSKncSHpSKncSHrSKncSHtSKncSHvSKncSHxSKncSHzSKncSIbSKncSIdSKncSIfSKncSIhSKncSIjSKnd",
   "SImSKncSIoSKncSIqSKnhSIxSKnbSIxSKocSJaSKnbSJaSKocSJdSKnbSJdSKocSJgSKnbSJgSKocSJjSKnbSJjSKoxSHi",
   "SKnkSKrSKnoSLfSKncSLhSKncSLjSKncSLlSKncSLnSKncSLpSKncSLrSKncSLtSKncSLvSKncSLxSKncSLzSKncSMbSKn",
   "dSMeSKncSMgSKncSMiSKnhSMpSKnbSMpSKocSMsSKnbSMsSKocSMvSKnbSMvSKocSMySKnbSMySKocSNbSKnbSNbSKoxSL",
   "aSKndSNvSKnbSNwSKnbSNxSKnbSNySKneSOjSKnDGRsDZGbDZHicDZGdDZHipDZGnDZHiFbDZLxDZLnbDZLyDZLnUuEAGl",
   "EAGcbEAGlEAHbOdEAUrEAUsbEAUrEAUicEAUrEAUvJsEBEmEBEdbEBEnEBEdBIjECMvECMq"]

/-- A character that stands for two others. -/
structure Composite where
  whole : Nat
  base : Nat
  mark : Nat
  deriving DecidableEq, Repr

def composites (pos : Nat) : List Nat → List Composite
  | gap :: base :: mark :: rest => ⟨pos + gap, base, mark⟩ :: composites (pos + gap) rest
  | _ => []

def all : List Composite := composites 0 table

/-- Where a mark stands; zero for all that is no mark. -/
def place (n : Nat) : Nat := (Table.kind? places n).getD 0

/-- A character in its parts; `fuel` bounds how often a part is divided again. -/
def parts : (fuel : Nat) → Nat → List Nat
  | 0, n => [n]
  | fuel + 1, n =>
    match all.find? (·.whole = n) with
    | some c => parts fuel c.base ++ [c.mark]
    | none => [n]

/-- Puts a character in front of a text, behind marks of lower places. -/
def insert (n : Nat) (ns : List Nat) : List Nat :=
  if place n = 0 then n :: ns
  else
    let lower (m : Nat) : Bool := place m ≠ 0 && place m < place n
    ns.takeWhile lower ++ n :: ns.dropWhile lower

/-- All characters in their parts, marks in the order of their places. -/
def divided (ns : List Nat) : List Nat := (ns.flatMap (parts 4)).foldr insert []

def whole? (base mark : Nat) : Option Nat :=
  (all.find? fun c => c.base = base && c.mark = mark).map Composite.whole

/-- Joins what follows `base`; `marks` holds the marks since it that could not
be joined to it, the last one first. -/
def join (base : Nat) (marks : List Nat) : List Nat → List Nat
  | [] => base :: marks.reverse
  | n :: ns =>
    let open_ := marks.head?.all fun m => place m < place n
    match if open_ then whole? base n else none with
    | some c => join c marks ns
    | none => if place n = 0 then base :: marks.reverse ++ join n [] ns else join base (n :: marks) ns

/-- A text with as few characters as it can be written with. -/
def composed (ns : List Nat) : List Nat :=
  match divided ns with
  | [] => []
  | n :: rest => join n [] rest

end Ecash.Text.Composed
