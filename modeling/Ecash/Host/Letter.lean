import Ecash.Text.Table

/-!
# Characters of host names

Which characters may stand in a label of a host name, in which direction they
are written, and how the letters of joined scripts connect.
-/
namespace Ecash.Host

open Text

/-- In which direction a character is written. -/
inductive Direction where
  | leftToRight
  | rightToLeft
  /-- Right to left, in the manner of Arabic. -/
  | arabic
  | arabicDigit
  | europeanDigit
  /-- Hyphens. -/
  | separator
  | neutral
  /-- Invisible joiners. -/
  | joiner
  /-- Marks, which follow the character before them. -/
  | mark
  deriving DecidableEq, Repr

def directions : List Direction :=
  [.leftToRight, .rightToLeft, .arabic, .arabicDigit, .europeanDigit, .separator, .neutral, .joiner, .mark]

/-- The characters that may stand in a label; the kind is twice the place of
their direction among `directions`, plus one for those that combine with the
character before them. -/
def letters : List Table.Run := Table.runs 0 (Table.read
  ["BtbkckiBnBaaCibmBnyabiabbabbabbabbabbabbabbabbabbabbabbabbabbabbabbabbabbabbabbabbabbabbabbabb",
   "abbadbabcabbabbabbadbabbabbabbacbabbabbabbabbabbabbabbabbabbabbabbabbabbabbabbabbabbabbabbabba",
   "bbabbacbabbabbabbacbabbacbadcaebacbaddacbacbabbabbacbabcabbacbadbabbacdabhakbabbabbabbabbabbab",
   "babcabbabbabbabbabbabbabbabbabcaebadbabbabbabbabbabbabbabbabbabbabbabbabbabbabbabbabbabbabbabb",
   "abbabbabbabbabbabbabbabbabbabhacbaccabbaebabbabbabbabDtajcmahaekmacaBabmbbarCmrcbrdjrbBgrbbabb",
   "abbmbbaddasbaBbBjaibabbabbabbabbabbabbabbabbabbabbabbabbadbaebaccaBzBwabbabbabbabbabbabbabbabb",
   "abbabbabbabbabbabbabbabbabbabfrdbabbabbabbabbabbabbabbabbabbabbabbabbabbabbabbabbabbabbabbabba",
   "bbabbabbabbabbabbacbabbabbabbabbabbabcabbabbabbabbabbabbabbabbabbabbabbabbabbabbabbabbabbabbab",
   "babbabbabbabbabbabbabbabbabbabbabbabbabbabbabbabbabbabbabbabbabbabbabbabbabbabbabbabbabbaBpbag",
   "BnabbaiBtrbbrbcrbcrbbriBbcegcBblrfBgebkeavrakgeceabraeeeDnebbeahrcgraceacrberaceakiageqbeabraB",
   "eeaBbrcDlealrabeoBrcajracchbrcwcaerabcajrabcadrabcafrszcadrelefyebgejiraBqeayrbBgrabbaCcaabrab",
   "babrabaadbairaebabracbabaahricaacrckabqaabracbbiaccacwabhabbadeacbrabaadbaerccbccbabrabaibbica",
   "acrcmakbabbrccrabbbgaecacwabhabbacbaccacbrbdbacrecrcdrdbrkbajkaacradaabrlcrabbbjabdabwabhabcab",
   "facbrabaadbafrbcrabbbcbabrcbapcaacrckajbaagrbbracbbiaccacwabhabcabfacbrabaabbabrabbaerccbccbab",
   "rhcrabbhdaacrckabbaqbrababgaddabeadcabbabcadcaddadmaecbabracbddbbdbabrcbagbbokaqbradbabraiabda",
   "bxabqacbrabaadraebbdrberhcrbdacbaccaacrckaqbaabracbbiabdabxabkabfacbrabaahbbdbbcbacrhcbgcabcaa",
   "crckabcancracbajabdabBpaacrabaadbaerbdbbdbabrabafdaabbhdaacrckakgabbracbbsadyabjabbachadbredba",
   "drbbrbibgkaccbnBwaabrababhrfhaairbkaBncabbabfabyabbabkaabrababjrabacfabbabgrckaecaBgbakbamcrgk",
   "albrbbrbbrecbadabeabeabeabeabeabmabdaecrbbrffrabbabrbdrbcrafaagrberberberberberbmrbdrjbrCfBraa",
   "cbaerabbagrabbacracbacralaggaacbacraeaadrabaadbacaahbadaaeranaabracbacragbabrabaabbakaadbabrBy",
   "BracdaJwCvabeachabbabeacBpabeacBhabeachabbabeacpabCfabeacCpacdrBgqaqDialXwacrabBaafCxagiahsaad",
   "rabbjtaacrabblsaacrmnabdabcrmCaacbbahraibabracbalrdbaebaabrckaBmkagDlahfaacraBiaabrabafCsakBfa",
   "bdraebacradbecbabragbadrkBoacfalBsaeBaagkaBmxaacracbabreCbaabbabrabbahrbbrabbabracbairagbakrcb",
   "rakagkanbaiorbqrBxerabbaBvaabrabbafrabbabrafbabracbaiadkarjrmcrabbaBeaabbaeracbacrabbadraCeaab",
   "rabbacradbabrabbadracbmBkaaibairacbacrikadBxaDedrbnrabbahraeaabragaabracaabbacrabafBsadbalbasb",
   "aBcnabBiaBlCmrbbabbabbabbabbabbabbabbabbabbabbabbabbabbabbabbabbabbabbabbabbabbabbabbabbabbabb",
   "abbabbabbabbabbabbabbabbabbabbabbabbabbabbabbabbabbabbabbabbabbabbabbabbabbabbabbabbabbabbabba",
   "bbabbabbabbabbabbabbabbabbabbabbabbabbabbabbabbabfaccabbabbabbabbabbabbabbabbabbabbabbabbabbab",
   "babbabbabbabbabbabbabbabbabbabbabbabbabbabbabbabbabbabbabbabbabbabbabbabbabbabbabbabbabbabbabb",
   "abbabbabbabjaigakiaiiaigakiaiiaibabbabbabbabbabbabbaBzcaebapbajdadcaidabeaobavcoMibaCbbaEBbBwa",
   "bbadcabbabbabbaebabcabgafbabbabbabbabbabbabbabbabbabbabbabbabbabbabbabbabbabbabbabbabbabbabbab",
   "babbabbabbabbabbabbabbabbabbabbabbabbabbabbabbabbabbabbabbabbabbabbabbabbabbabcahbabbaadrbbamB",
   "mabbafbacCeaxbraxajhabhabhabhabhabhabhabhabBgrBvbmSbdaBierobaeDiaccrccacDmaabmadagBraEiBgaBwqa",
   "TsJToaCmBGUfaCpBuacKjadBcavbabbabbabbabbabbabbabbabbabbabbabbabbabbabbabbabbabbabbabbabbabbabc",
   "aabrekrbbmbbabbabbabbabbabbabbabbabbabbabbabbabbabbaccraCsakcrBljmdbabbabbabbabbabbabdabbabbab",
   "babbabbabbabbabbabbabbabbabbabbabbabbabbabbabbabbabbabbabbabbabbabbabbabbabbabbabbabbabiabbabb",
   "acbabbabbabbabbaabmdbabcabbabdabbabbabbabbabbabbabbabbabbabbafbafbabbabbabbabbabbabbabbaebabba",
   "gbabbabbabbabbaBccaciaabradaabraeaabraxaacbacrabbebrtCaamcbaByaaqbacrkkagsragadbabcaabraBmaair",
   "cxaalracbBsdrabbaBvaabracbaeracbacradbolagfaabrazabBpaagracbacracbacrjdaabraiaabrabbckagxadbaa",
   "bbabrabbaByaabrabaadracaacrafaacrabaabrabaydaclaabbacracbcdaabbabrkgacgacgajhabhabBrafjaDjBjaa",
   "cbabracbabracbbbbabrckagQNsaNAwcabbabcakbabbabcacdaJkbrBDpqrCpbePgmabBaabtabcabpacoaBiEtaJybrF",
   "aBdadBxapbrBfBganuabiagBmaafrfBeacBkaeiaDkEoackaBuBkaeBoaiCaaBzlabpabhabcaCpLzajwakiaybaExgccb",
   "cbBscbccdbccxckxcjBfcCntcbcckwckBacCsCecgccCmbcadrbcrferaecbdcbBdccdrebrBgBdcdBdcBjicbBccacrzC",
   "cckwcktcnscEgCvcEpBzcnBkeaerikgMoBqcbcrdccDaBdckbciwealrBfscaerBqvcBbxcjbbabrabbaCbaaprBfkaabr",
   "acaacrabajdrabbaBtaadbaeracbacrhbrnzahkagdraBkaafrabbairbkaebaacbabaiBjaabrcbajcrabbaBwaadbajr",
   "acbaeaeerbbbabralabbaBjsabzaadbadracbabrabbacrgbrCnhabbabeabpabkahBvaabradbairfkagcracbbiaccac",
   "wabhabcabfabcrabaacbabraebccbcdbcbagbbffaacbchrdfrFjCbaadbairacbadrabbabraeafkaebradaBeBwaadba",
   "grabbabraebacrabbacracabbaikaGkBvaadbaercebacrabbacrxeaacrBiBwaadbairacbabrabbacrdbalkaBmBraab",
   "rabbabracbagrabbabrabahkaCcBbacdracbaerabbafrekaghaHdBsaadbajrabbacrFdBqaviacbaciabcabyaagbbcb",
   "ccrabbabrabaabbabaabbabrmkaCsiacBnaadbaerccraebabrababbaabbBbbaagracbacraBoaagrabbabaaeribriba",
   "agracbadraBuaanrabbacrdbasCvaKdjabBlaabbahrbgracbabapkayBeacwrbbbahrabbacrabbacrCvhabcabBmaagr",
   "dbrbcrbhrabaabrikaggabcabBgaafbbcrbcbabrabbabrabahkaLytaacracbHdbaDbBJmaIwHoaDXkDtapBPfaFZtWla",
   "MUbVxahBfabkagDbabkagBeacfrlBwaahrjeamkajvaftaBBsBgaEyCxaebrabaaCdbheranaCmcabbaabrlcboJCaaiBV",
   "qaBqjaNFreabhabcabLfaBtdareaiPgaDKuEdafnadjahkadcrGYzBurcxrEBpCdreByribrobrwfrbprBQmBfaIrhrbrr",
   "chrbcrbfrIfBtadhrahackaebaMjBeaabrrBsaaerakaBWghabeabcabpabHpclhrCxBicahrabcekcIPaCLFcaBgGDtah",
   "IoacINqaoLBlaHQdHHza"])

/-- What labels need to know of a character. -/
structure Letter where
  direction : Direction
  combining : Bool
  deriving DecidableEq, Repr

/-- The letter of a code point that may stand in a label. -/
def letter? (n : Nat) : Option Letter :=
  (Table.kind? letters n).bind fun k => (directions[k / 2]?).map (⟨·, k % 2 = 1⟩)

/-! ## Joining -/

/-- How a character connects to its neighbours. -/
inductive Joining where
  /-- Not seen by the connection. -/
  | transparent
  | left
  | dual
  | right
  deriving DecidableEq, Repr

def joinings : List Joining := [.transparent, .left, .dual, .right]

def joiningTable : List Table.Run := Table.runs 0 (Table.read
  ["BDoCmacbadjabBgaKpfaKfBtabbabcabcabbaCulafbcbedabcabdabcabdafcaedancbhcabdaccavaoccabaaddfpcas",
   "daBmcabdaccajdabcabdabcabdaccacdbbdahacgaccabeaacdkdccbcqbdabaadcafdaecabdajcabdabcabdabcabdac",
   "cabdaBbacbdalcaddapcacdaecabdabcacdadcacdagcBmlazBhcajajbayeabjabdabfasbdafcacdabcabdakcabdabc",
   "addadaebcbecbbdabcacdftddbccfcabdjiaakcaddbbdaccacdagcabdapcbyabBgaCdbabbaeiaebadhakcaBdbaCgba",
   "eeaibaucaBabaccaCfbaecaecacdadbaBecadbalcaCfbaefabcaebaucawgabbaCgbacbabeaibahcalcaBebaCjbamba",
   "BybadbaCdbabdafdabeahcalcaBdbaCgbacbagbafcaucaBccaCfcaeeaibaucaBdbaCubahdabbaDmbachamiaDubacja",
   "lgaCwcaBbbabbabbaCdcabbaffabbabdabcafgabeabeabeabeabeabmabdajbaDyeabgabcaccazcaedaqeanbaccagba",
   "pbaBBbdaBKkdaBdcaBecaBecaCphaibaclajbaCoDlcmcaaBicabaabcEndaecajbagdaIlcacbaCgbabhabbabbaciagk",
   "acbaBwoabqaBxeaBwbabfabbafbaBojamcaBgeaccabdaCebabcadbabdaCgiaccaFwdabnabhaebagbadcaHqCmaFRbda",
   "FlbaDsBgaVieaEdcaBSQebaekaBgcaDccaKmbadbaebazcafbatBycabbDdcaBasanbaBmiazlaBudaBwbaceaccaBnbaC",
   "pgaccaccambaibaBvbaBzbabdaccafcabbaBqcaibaJebacbaebaBDZsbaBDpqaBLlbaIsbaFtfaCMgdabcafeaBodaeba",
   "EyfcabdbbdbcdcbbafdaecabbafcabdadcabdcbdacaFxbcabdabcaddadcabdaccabdabcacdabcabdOcbbaBhcabdabc",
   "aeaOxcaFbdcabdarcblaBfecacdamcaeaBqbcbccaddbbcacdaccabdaccbbcacdabcCibaCcpaBpbaccakdaBxeaccahb",
   "aCjdaBkfabiaCkbamcaCajakeacbaDrdacbabcagbaGebadiavcaCfcadbaBlhadfaHniacdabbaxbaDggabbaecabcaJe",
   "eagcabcaBbcaDhiacbabcaEcbabbacgabbaDxdaceabfaJzjabcaJwcabbaebaFoeaccaebaBgkaBogaceaibajgacdaBu",
   "nabcaPqhabgabbaDewachabcabcaEsgadbabcabhabbaCucadbabbaNjcaBCUdfaChhaBOibaCleaDdbaBDBkcaGYzBuac",
   "xaEBpCdaeByaibaobawfabpaCAihabrachabcabfaKbhaOlbaCjeaCFwhaCxBicaia"])

def joining? (n : Nat) : Option Joining := (Table.kind? joiningTable n).bind (joinings[·]?)

/-! ## Scripts -/

def greek : List Table.Run := Table.spans 0 (Table.read
  ["BHxbbbbbbbddsbBbBjibbbbbbbbbbbrbebccJNtfSbiigkiiiigkiiiibbbbbbbbbbbbbBzcebpbjddcidbeobCAUwb"])

def hebrew : List Table.Run := Table.spans 0 (Table.read
  ["CCvBtbbbcbcbbiBbegDOVxb"])

/-- Han, Hiragana and Katakana. -/
def japanese : List (List Table.Run) :=
  [Table.spans 0 (Table.read
  ["SEvbbbBNcJToCmBFBkBICscbbbckbbbbccdBSPdbmcCCOkCLFcBgGDthIocINqoLBlHQdHHz"]),
   Table.spans 0 (Table.read
  ["SHdDigcFPEwLbBwd"]),
   Table.spans 0 (Table.read
  ["SKvDmccJhqFOQqebhbcbbLbdCne"])]

end Ecash.Host
