import Ecash.Proofs.Bytes
import Ecash.Proofs.Derivation
import Mathlib.Data.List.ReduceOption

/-!
# What values are derived from

The value for a counter follows from what is hashed for it, or from the child indices on a path.
Both name the counter and the purpose: messages that agree are of the same counter
(`hashedMessage_inj`), and a path is read as the indices that were printed
(`route_pathText`), whichever keyset they are of. So no two values of a keyset are
derived from the same (`derive_never_aliases`).
-/
namespace Ecash

-- Powers are core's own, whatever else is imported.
attribute [local instance (high)] instPowNat

/-! ## Paths -/

namespace ExtendedKey

variable {S : Suite}

/-- The child indices that a path names. -/
def route (path : String) : Outcome (List Int) := do
  return (← (parts path).mapM partIndex).reduceOption

/-- Whether the parts of a path are read in turn or all at once, the key is the same. -/
theorem descendParts_of_read {parts : List (List Char)} {rs : List (Option Int)}
    (h : List.Forall₂ (fun part r => partIndex part = .ok r) parts rs) (k : ExtendedKey) :
    k.descendParts S parts = k.descend S rs.reduceOption := by
  induction h generalizing k with
  | nil => rfl
  | @cons part r parts rs hr _ ih =>
    rw [descendParts, hr]
    cases r with
    | none => exact ih k
    | some i => exact bind_congr fun child => ih child

theorem descendPath_of_route {path : String} {is : List Int} (h : route path = .ok is)
    (k : ExtendedKey) : k.descendPath S path = k.descend S is := by
  obtain ⟨rs, hrs, h⟩ := Outcome.bind_ok_iff.mp h
  cases h
  exact descendParts_of_read (Outcome.mapM_ok_iff.mp hrs) k

end ExtendedKey

namespace Derivation

open ExtendedKey (hardened route)

variable {S : Suite} {seed : Bytes} {id : String} {purpose purpose' : Purpose}

/-- The child indices for a counter of a keyset. -/
def childIndices (keyset counter : Nat) (purpose : Purpose) : List Int :=
  [129372 + hardened, hardened, keyset + hardened, counter + hardened, purpose.code]

theorem code_inj (h : purpose.code = purpose'.code) : purpose = purpose' := by
  cases purpose <;> cases purpose' <;> first | rfl | cases h

theorem childIndices_inj {keyset counter counter' : Nat}
    (h : childIndices keyset counter purpose = childIndices keyset counter' purpose') :
    counter = counter' ∧ purpose = purpose' := by
  unfold childIndices at h
  simp only [List.cons.injEq, Int.add_left_inj, Int.natCast_inj, and_true, true_and] at h
  exact h.imp_right code_inj

/-- A path is read as the indices that it was printed for. -/
theorem route_pathText {keyset counter : Nat} (hkeyset : keyset < 2 ^ 31)
    (hcounter : (Nat.toDigits 10 counter).length ≤ Text.maxDecimalDigits) :
    route (pathText keyset counter purpose) = .ok (childIndices keyset counter purpose) := by
  have hmarked {n : Nat} (h : (Nat.toDigits 10 n).length ≤ Text.maxDecimalDigits) :
      ExtendedKey.partIndex (Nat.toDigits 10 n ++ ['\'']) = .ok (some (n + hardened)) := by
    rw [ExtendedKey.partIndex_marked, if_neg (Nat.not_lt.mpr h)]
  have hshort {n : Nat} (h : n < 2 ^ 31) : (Nat.toDigits 10 n).length ≤ Text.maxDecimalDigits := by
    have hlength : (Nat.toDigits 10 n).length ≤ 10 :=
      (Nat.length_toDigits_le_iff (by decide) (by decide)).mpr (by omega)
    exact Nat.le_trans hlength (by decide)
  have hlast : ExtendedKey.partIndex (Nat.toDigits 10 purpose.code) = .ok (some purpose.code) := by
    cases purpose <;> rfl
  have hread : List.Forall₂ (fun part r => ExtendedKey.partIndex part = .ok r)
      (ExtendedKey.segments keyset counter purpose)
      [none, some ((129372 : Nat) + hardened), some ((0 : Nat) + hardened), some (keyset + hardened),
        some (counter + hardened), some purpose.code] :=
    .cons rfl <| .cons (hmarked (by decide)) <| .cons (hmarked (by decide)) <|
      .cons (hmarked (hshort hkeyset)) <| .cons (hmarked hcounter) <| .cons hlast .nil
  unfold route
  rw [ExtendedKey.parts_pathText, Outcome.mapM_ok_iff.mpr hread]
  rfl

/-! ## Messages -/

theorem hashedMessage_inv {counter : Nat} {message : Bytes}
    (h : hashedMessage id counter purpose = .ok message) :
    counter < 2 ^ 64 ∧ ∃ idBytes, Bytes.ofHex? id = some idBytes ∧
      message = Bytes.ofText "Cashu_KDF_HMAC_SHA256" ++ idBytes ++ Bytes.ofNat 8 counter ++
        [UInt8.ofNat purpose.code] := by
  unfold hashedMessage at h
  split at h
  · cases h
  · rename_i idBytes hid
    split at h
    · cases h
    · rename_i hcounter
      cases h
      exact ⟨Nat.not_le.mp hcounter, idBytes, hid, rfl⟩

/-- The last byte of a message is the purpose's, the eight before it are the counter's, and
what is left is the id's. -/
theorem hashedMessage_inj {id' : String} {counter counter' : Nat} {message : Bytes}
    (h : hashedMessage id counter purpose = .ok message)
    (h' : hashedMessage id' counter' purpose' = .ok message) :
    Bytes.ofHex? id = Bytes.ofHex? id' ∧ counter = counter' ∧ purpose = purpose' := by
  obtain ⟨hlt, idBytes, hid, rfl⟩ := hashedMessage_inv h
  obtain ⟨hlt', idBytes', hid', hmessage⟩ := hashedMessage_inv h'
  obtain ⟨hmessage, hlast⟩ := List.append_inj' hmessage rfl
  obtain ⟨hmessage, hcounter⟩ := List.append_inj' hmessage (by simp [Bytes.length_ofNat])
  have hbytes : idBytes = idBytes' := List.append_cancel_left hmessage
  have hnat := congrArg Bytes.toNat hcounter
  rw [Bytes.toNat_ofNat, Bytes.toNat_ofNat] at hnat
  refine ⟨by rw [hid, hid', hbytes], by omega, ?_⟩
  cases purpose <;> cases purpose' <;> first | rfl | cases hlast

theorem deriveHashed_of_le {counter : Nat} (h : 2 ^ 64 ≤ counter) :
    ∃ e, deriveHashed S seed id counter purpose = .error e := by
  cases hd : deriveHashed S seed id counter purpose with
  | error e => exact ⟨e, rfl⟩
  | ok bytes => exact absurd (deriveHashed_counter hd) (by omega)

theorem derivePath_of_le {counter : Nat} (h : 2 ^ 31 ≤ counter) :
    ∃ e, derivePath S seed id counter purpose = .error e := by
  cases hd : derivePath S seed id counter purpose with
  | error e => exact ⟨e, rfl⟩
  | ok bytes => exact absurd (derivePath_counter hd) (by omega)

/-! ## Ids -/

/-- An id of a version, in hexadecimal. -/
def HasVersion (id : String) (version : List Char) : Prop :=
  isHexId id.toList = true ∧ id.toList.take 2 = version

instance (id : String) (version : List Char) : Decidable (HasVersion id version) :=
  inferInstanceAs (Decidable (_ ∧ _))

theorem derive_hashed (h : HasVersion id ['0', '1']) (counter : Nat) :
    derive S seed id counter purpose = deriveHashed S seed id counter purpose := by
  unfold derive
  rw [if_neg (by omega), if_neg (by simp [h.1]), h.2]
  rfl

theorem derive_path (h : HasVersion id ['0', '0']) (counter : Nat) :
    derive S seed id counter purpose = derivePath S seed id counter purpose := by
  unfold derive
  rw [if_neg (by omega), if_neg (by simp [h.1]), h.2]
  rfl

/-- A digit of a byte is a digit of a number, and no mark of the base. -/
theorem digit_of_hexValue? {c : Char} (h : (Bytes.hexValue? c).isSome) :
    Text.digitValue? 16 c = some ((Bytes.hexValue? c).getD 0) ∧ Text.Plain c ∧ c.toLower ≠ 'x' := by
  have hall : ∀ n < 128, (Bytes.hexValue? (Char.ofNat n)).isSome →
      Text.digitValue? 16 (Char.ofNat n) = some ((Bytes.hexValue? (Char.ofNat n)).getD 0) ∧
        Text.Plain (Char.ofNat n) ∧ (Char.ofNat n).toLower ≠ 'x' := by
    decide +kernel
  have hascii : c.toNat < 128 := by
    have hlt {d : Char} (hle : c ≤ d) (hd : d.toNat < 128) : c.toNat < 128 := Nat.lt_of_le_of_lt hle hd
    unfold Bytes.hexValue? at h
    split at h
    · rename_i hdigit
      exact hlt hdigit.2 (by decide)
    split at h
    · rename_i hlower
      exact hlt hlower.2 (by decide)
    split at h
    · rename_i hupper
      exact hlt hupper.2 (by decide)
    · cases h
  have hc := hall c.toNat hascii
  rw [Char.ofNat_toNat] at hc
  exact hc h

theorem isHexId_inv {cs : List Char} (h : isHexId cs = true) : ∃ digits blanks, cs = digits ++ blanks ∧
    digits ≠ [] ∧ (∀ c ∈ digits, (Bytes.hexValue? c).isSome) ∧
      ∀ c ∈ blanks, Text.isNumeralBlank c = true := by
  unfold isHexId at h
  rw [Bool.and_eq_true, Bool.not_eq_true', List.isEmpty_eq_false_iff, List.all_eq_true] at h
  split at h
  · rename_i hbreak
    exact ⟨cs.dropLast, ['\n'], (List.dropLast_append_getLast? _ hbreak).symm, h.1, h.2,
      List.forall_mem_singleton.mpr (by decide)⟩
  · exact ⟨cs, [], (List.append_nil cs).symm, h.1, h.2, by simp⟩

theorem unmarked_hex {cs : List Char} (h : ∀ c ∈ cs, c.toLower ≠ 'x') : Text.unmarked 16 cs = cs := by
  unfold Text.unmarked
  split
  · rename_i c rest
    exact if_neg fun hx => h c (by simp) (Option.some.inj hx)
  · rfl

/-- An id in hexadecimal has a number. -/
theorem keysetIndex_total (h : isHexId id.toList = true) :
    ∃ n : Nat, keysetIndex id = .ok n ∧ n < 2 ^ 31 - 1 := by
  obtain ⟨digits, blanks, hid, hne, hdigits, hblanks⟩ := isHexId_inv h
  have hread : Text.readInt? 16 (digits ++ blanks) = _ :=
    Text.readInt?_digits hne (fun c hc => (digit_of_hexValue? (hdigits c hc)).2.1)
      (fun c hc => (digit_of_hexValue? (hdigits c hc)).1)
      (unmarked_hex fun c hc => (digit_of_hexValue? (hdigits c hc)).2.2) hblanks
  obtain ⟨i, hi⟩ : ∃ i, keysetIndex id = .ok i := by
    unfold keysetIndex Text.parseHexInt?
    rw [hid, hread, if_neg (by simp)]
    exact ⟨_, rfl⟩
  obtain ⟨n, rfl, hn⟩ := keysetIndex_inv hi
  exact ⟨n, hi, hn⟩

/-- The key of a path is the one at the indices that the path is read as. -/
theorem derivePath_of_route {i : Int} {counter : Nat} {is : List Int} (hkeyset : keysetIndex id = .ok i)
    (hread : route (pathText i counter purpose) = .ok is) :
    derivePath S seed id counter purpose = do
      return (← (← ExtendedKey.ofSeed S seed).descend S is).key := by
  unfold derivePath
  rw [hkeyset]
  change (do return (← (← ExtendedKey.ofSeed S seed).descendPath S (pathText i counter purpose)).key) = _
  simp only [ExtendedKey.descendPath_of_route hread]

/-! ## No two values of a keyset are derived from the same -/

/-- For every seed and every id: a counter below zero is refused.

For an id of version `01` a value depends on nothing but the purpose and the hash of its message.
Messages that agree, of this id and any other, have the same bytes of the id, the same counter
and the same purpose. A counter from 2^64 on has no value.

For an id of version `00` a value is the key at the five child indices that the path is read
as, for every counter that has no more digits than a number may be printed with. They tell
the counters and purposes of the keyset apart. A counter from 2^31 on has no value. -/
theorem derive_never_aliases (S : Suite) (seed : Bytes) (id : String) :
    (∀ counter < 0, ∀ purpose, derive S seed id counter purpose =
      .error (.derivation (.negativeCounter counter))) ∧
    (HasVersion id ['0', '1'] →
      (∀ (counter : Nat) purpose, derive S seed id counter purpose = do
        ofDigest S purpose (S.hmacSha256 seed (← hashedMessage id counter purpose))) ∧
      (∀ id' counter counter' purpose purpose' message,
        hashedMessage id counter purpose = .ok message →
          hashedMessage id' counter' purpose' = .ok message →
            Bytes.ofHex? id = Bytes.ofHex? id' ∧ counter = counter' ∧ purpose = purpose') ∧
      ∀ counter : Nat, 2 ^ 64 ≤ counter → ∀ purpose, ∃ e, derive S seed id counter purpose = .error e) ∧
    (HasVersion id ['0', '0'] → ∃ keyset : Nat, keysetIndex id = .ok keyset ∧ keyset < 2 ^ 31 - 1 ∧
      (∀ (counter : Nat) purpose, (Nat.toDigits 10 counter).length ≤ Text.maxDecimalDigits →
        route (pathText keyset counter purpose) = .ok (childIndices keyset counter purpose) ∧
          derive S seed id counter purpose = do
            return (← (← ExtendedKey.ofSeed S seed).descend S (childIndices keyset counter purpose)).key) ∧
      (∀ counter counter' purpose purpose',
        childIndices keyset counter purpose = childIndices keyset counter' purpose' →
          counter = counter' ∧ purpose = purpose') ∧
      ∀ counter : Nat, 2 ^ 31 ≤ counter → ∀ purpose, ∃ e, derive S seed id counter purpose = .error e) := by
  refine ⟨fun counter hneg purpose => if_pos hneg, fun hid => ⟨?_, ?_, ?_⟩, fun hid => ?_⟩
  · exact fun counter purpose => derive_hashed hid counter
  · exact fun id' counter counter' purpose purpose' message => hashedMessage_inj
  · intro counter hlarge purpose
    rw [derive_hashed hid]
    exact deriveHashed_of_le hlarge
  · obtain ⟨keyset, hkeyset, hlt⟩ := keysetIndex_total hid.1
    refine ⟨keyset, hkeyset, hlt, fun counter purpose hshort => ?_, ?_, ?_⟩
    · have hread : route (pathText keyset counter purpose) = .ok (childIndices keyset counter purpose) :=
        route_pathText (by omega) hshort
      refine ⟨hread, ?_⟩
      rw [derive_path hid, derivePath_of_route hkeyset hread]
    · exact fun counter counter' purpose purpose' => childIndices_inj
    · intro counter hlarge purpose
      rw [derive_path hid]
      exact derivePath_of_le hlarge

/-- The keyset with the number 864559728. -/
theorem derive_never_aliases_path : HasVersion "009a1f293253e41e" ['0', '0'] ∧
    keysetIndex "009a1f293253e41e" = .ok 864559728 ∧
      route "m/129372'/0'/864559728'/3'/1" = .ok [2147613020, 2147483648, 3012043376, 2147483651, 1] := by
  have hid : HasVersion "009a1f293253e41e" ['0', '0'] := by decide
  have hkeyset : keysetIndex "009a1f293253e41e" = .ok 864559728 := by decide +kernel
  obtain ⟨keyset, hindex, -, hread, -⟩ :=
    (derive_never_aliases .secp256k1 [] "009a1f293253e41e").2.2 hid
  obtain rfl : 864559728 = keyset := by
    rw [hkeyset] at hindex
    exact_mod_cast Except.ok.inj hindex
  have hpath : pathText (864559728 : Nat) 3 .blinding = "m/129372'/0'/864559728'/3'/1" := by decide
  rw [← hpath]
  exact ⟨hid, hkeyset, (hread 3 .blinding (by decide)).1⟩

end Derivation

end Ecash
