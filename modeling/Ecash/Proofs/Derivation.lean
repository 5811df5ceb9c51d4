import Ecash.Derivation.Secret
import Ecash.Proofs.Outcome
import Mathlib.Algebra.Ring.Int.Defs
import Mathlib.Algebra.Ring.Nat

/-!
# Which counters have derived values

A counter is hashed in eight bytes, or it is a part of a path. There it is read as it was
written (`partIndex_marked`), and the index that comes of it has to fit four bytes. So no
counter from 2^64 on has derived values (`derive_counter`).
-/
namespace Ecash

namespace Text

theorem dropTail_eq_self {p : Char → Bool} {cs : List Char} (h : ∀ c ∈ cs.getLast?, p c = false) :
    dropTail p cs = cs := by
  rcases cs.eq_nil_or_concat with rfl | ⟨init, last, rfl⟩
  · rfl
  · rw [List.concat_eq_append] at h ⊢
    simp [dropTail, h last (by simp)]

theorem dropWhile_eq_self {p : Char → Bool} {cs : List Char} (h : ∀ c ∈ cs.head?, p c = false) :
    cs.dropWhile p = cs := by
  cases cs with
  | nil => rfl
  | cons c cs => exact List.dropWhile_cons_of_neg (by simp [h c rfl])

/-! ## Decimal numerals -/

theorem isDigit_of_mem_toDigits {n : Nat} {c : Char} (h : c ∈ Nat.toDigits 10 n) : c.isDigit = true :=
  Nat.isDigit_of_mem_toDigits (by decide) (by decide) h

theorem toNat_of_isDigit {c : Char} (h : c.isDigit = true) : 48 ≤ c.toNat ∧ c.toNat ≤ 57 := by
  unfold Char.isDigit at h
  rw [Bool.and_eq_true, decide_eq_true_eq, decide_eq_true_eq] at h
  exact h

theorem isBlank_of_isDigit {c : Char} (h : c.isDigit = true) : isBlank c = false := by
  obtain ⟨hle, hlt⟩ := toNat_of_isDigit h
  simp [isBlank]
  omega

theorem digitValue?_of_isDigit {c : Char} (h : c.isDigit = true) :
    digitValue? 10 c = some (c.toNat - 48) := by
  obtain ⟨hle, hlt⟩ := toNat_of_isDigit h
  have hzero : zeros.find? (fun z => z ≤ c.toNat && c.toNat < z + 10) = some 48 := by
    rw [zeros, List.find?_cons_of_pos]
    simp
    omega
  unfold digitValue? decimalValue?
  rw [hzero]
  simp
  omega

theorem digitValue?_underscore (base : Nat) : digitValue? base '_' = none := by
  have hdecimal : decimalValue? '_' = none := by decide
  have hletter : letterValue? '_' = none := by decide
  rw [digitValue?, hdecimal, hletter]
  rfl

/-- Digits without underscores have their values. -/
theorem digitRun?_eq_map {base : Nat} {f : Char → Nat} {cs : List Char} (hne : cs ≠ [])
    (h : ∀ c ∈ cs, digitValue? base c = some (f c)) : digitRun? base cs = some (cs.map f) := by
  induction cs with
  | nil => exact absurd rfl hne
  | cons c cs ih =>
    obtain ⟨hc, h⟩ := List.forall_mem_cons.mp h
    cases cs with
    | nil =>
      rw [digitRun?, hc]
      rfl
    | cons d cs =>
      have hd : d ≠ '_' := by
        rintro rfl
        have hnone := h _ List.mem_cons_self
        rw [digitValue?_underscore] at hnone
        cases hnone
      rw [digitRun?, hc, ih (List.cons_ne_nil _ _) h]
      · rfl
      · simp
      · simpa using hd

/-- The digits of a number stand for it. -/
theorem ofDigits_toDigits (n : Nat) :
    ofDigits 10 ((Nat.toDigits 10 n).map fun c => c.toNat - 48) = n := by
  rw [ofDigits, List.foldl_map]
  conv_rhs => rw [← Nat.ofDigitChars_ten_toDigits (n := n), Nat.ofDigitChars_eq_foldl]
  simp only [Nat.mul_comm]
  rfl

theorem unmarked_decimal (cs : List Char) : unmarked 10 cs = cs := by
  unfold unmarked
  split
  · rw [if_neg (by simp [baseLetter?])]
  · rfl

/-- Neither a blank nor a sign. -/
def Plain (c : Char) : Prop := isNumeralBlank c = false ∧ c ≠ '-' ∧ c ≠ '+'

instance (c : Char) : Decidable (Plain c) := inferInstanceAs (Decidable (_ ∧ _))

/-- Digits, and blanks after them, are read as the number of the digits. -/
theorem readInt?_digits {base : Nat} {f : Char → Nat} {cs blanks : List Char} (hne : cs ≠ [])
    (hplain : ∀ c ∈ cs, Plain c) (h : ∀ c ∈ cs, digitValue? base c = some (f c))
    (hmark : unmarked base cs = cs) (hblanks : ∀ c ∈ blanks, isNumeralBlank c = true) :
    readInt? base (cs ++ blanks) =
      if base = 10 ∧ maxDecimalDigits < cs.length then none
      else some (ofDigits base (cs.map f) : Int) := by
  have hhead : ∀ c ∈ (cs ++ blanks).head?, isNumeralBlank c = false := by
    rw [List.head?_append_of_ne_nil _ hne]
    exact fun c hc => (hplain c (List.mem_of_mem_head? hc)).1
  have hbody : dropTail isNumeralBlank ((cs ++ blanks).dropWhile isNumeralBlank) = cs := by
    rw [dropWhile_eq_self hhead, dropTail, List.reverse_append,
      List.dropWhile_append_of_pos (by simpa using hblanks), ← dropTail]
    exact dropTail_eq_self fun c hc => (hplain c (List.mem_of_mem_getLast? hc)).1
  have hmagnitude : magnitude? base cs =
      if base = 10 ∧ maxDecimalDigits < cs.length then none else some (ofDigits base (cs.map f)) := by
    rw [magnitude?, hmark, digitRun?_eq_map hne h, Option.bind_some, List.length_map]
  unfold readInt?
  rw [hbody]
  split
  · exact absurd rfl (hplain '-' List.mem_cons_self).2.1
  · exact absurd rfl (hplain '+' List.mem_cons_self).2.2
  · rw [hmagnitude]
    split <;> rfl

theorem plain_of_isDigit {c : Char} (h : c.isDigit = true) : Plain c := by
  refine ⟨by rw [isNumeralBlank, isBlank_of_isDigit h, Bool.false_and], ?_, ?_⟩ <;>
    rintro rfl <;> cases h

/-- The digits of a number are read as the number, unless they are too many. -/
theorem readInt?_toDigits (n : Nat) : readInt? 10 (Nat.toDigits 10 n) =
    if maxDecimalDigits < (Nat.toDigits 10 n).length then none else some (n : Int) := by
  have hdigit : ∀ c ∈ Nat.toDigits 10 n, c.isDigit = true := fun _ => isDigit_of_mem_toDigits
  have h : readInt? 10 (Nat.toDigits 10 n ++ []) = _ := readInt?_digits Nat.toDigits_ne_nil
    (fun c hc => plain_of_isDigit (hdigit c hc)) (fun c hc => digitValue?_of_isDigit (hdigit c hc))
    (unmarked_decimal _) (by simp)
  rw [List.append_nil, ofDigits_toDigits] at h
  simpa using h

end Text

namespace ExtendedKey

variable {S : Suite} {k k' : ExtendedKey}

/-! ## Paths -/

/-- An index of a child fits four bytes. -/
theorem child_index {i : Int} (h : k.child S i = .ok k') : i < 2 ^ 32 := by
  obtain ⟨message, hm, -⟩ := Outcome.bind_ok_iff.mp h
  obtain ⟨bytes, hb⟩ : ∃ bytes, indexBytes i = .ok bytes := by
    unfold childMessage at hm
    dsimp only at hm
    split at hm
    all_goals
      obtain ⟨_, -, hm⟩ := Outcome.bind_ok_iff.mp hm
      obtain ⟨bytes, hb, -⟩ := Outcome.bind_ok_iff.mp hm
      exact ⟨bytes, hb⟩
  unfold indexBytes at hb
  split at hb
  · rename_i hi
    exact hi.2
  · cases hb

/-- All parts of a path that leads to a key can be read, and name indices that fit. -/
theorem partIndex_of_descendParts {parts : List (List Char)} (h : k.descendParts S parts = .ok k') :
    ∀ part ∈ parts, ∃ r, partIndex part = .ok r ∧ ∀ i ∈ r, i < 2 ^ 32 := by
  induction parts generalizing k with
  | nil => simp
  | cons part parts ih =>
    rw [List.forall_mem_cons]
    obtain ⟨r, hr, h⟩ := Outcome.bind_ok_iff.mp h
    cases r with
    | none => exact ⟨⟨none, hr, by simp⟩, ih h⟩
    | some i =>
      obtain ⟨child, hc, h⟩ := Outcome.bind_ok_iff.mp h
      refine ⟨⟨some i, hr, ?_⟩, ih h⟩
      rintro _ ⟨⟩
      exact child_index hc

theorem isMark_of_isDigit {c : Char} (h : c.isDigit = true) : isMark c = false := by
  simp only [isMark, Bool.or_eq_false_iff, beq_eq_false_iff_ne]
  refine ⟨⟨?_, ?_⟩, ?_⟩ <;> rintro rfl <;> cases h

theorem not_isMark_of_toDigits {n : Nat} : ∀ c ∈ (Nat.toDigits 10 n).getLast?, isMark c = false :=
  fun _ hc => isMark_of_isDigit (Text.isDigit_of_mem_toDigits (List.mem_of_mem_getLast? hc))

/-- A marked number in a path names the index that far from the first hardened one. -/
theorem partIndex_marked (n : Nat) : partIndex (Nat.toDigits 10 n ++ ['\'']) =
    if Text.maxDecimalDigits < (Nat.toDigits 10 n).length then .error .unreadable
    else .ok (some (n + hardened)) := by
  -- the mark is taken off, and nothing else
  have hbody : Text.dropTail isMark (Nat.toDigits 10 n ++ ['\'']) = Nat.toDigits 10 n := by
    have hquote : Text.dropTail isMark (Nat.toDigits 10 n ++ ['\'']) =
        Text.dropTail isMark (Nat.toDigits 10 n) := by simp [Text.dropTail, isMark]
    rw [hquote, Text.dropTail_eq_self not_isMark_of_toDigits]
  unfold partIndex
  rw [if_neg (by rintro (h | h | h) <;> simpa using congrArg List.getLast? h), hbody,
    Text.readInt?_toDigits, List.getLast?_concat]
  by_cases hlong : Text.maxDecimalDigits < (Nat.toDigits 10 n).length
  · rw [if_pos hlong, if_pos hlong]
  · rw [if_neg hlong, if_neg hlong]
    rfl

/-- The parts of a derivation's path. -/
def segments (keyset counter : Nat) (purpose : Derivation.Purpose) : List (List Char) :=
  [['m'], Nat.toDigits 10 129372 ++ ['\''], Nat.toDigits 10 0 ++ ['\''],
    Nat.toDigits 10 keyset ++ ['\''], Nat.toDigits 10 counter ++ ['\''], Nat.toDigits 10 purpose.code]

theorem slash_notMem_segments {keyset counter : Nat} {purpose : Derivation.Purpose} :
    ∀ part ∈ segments keyset counter purpose, '/' ∉ part := by
  have hdigits (n : Nat) : '/' ∉ Nat.toDigits 10 n :=
    fun h => absurd (Text.isDigit_of_mem_toDigits h) (by decide)
  have hmarked (n : Nat) : '/' ∉ Nat.toDigits 10 n ++ ['\''] := by
    rw [List.mem_append, not_or]
    exact ⟨hdigits n, by decide⟩
  unfold segments
  simp only [List.forall_mem_cons, hmarked, hdigits, not_false_eq_true, true_and]
  exact ⟨by decide, by simp⟩

/-- The path's text comes apart into its parts again. -/
theorem parts_pathText (keyset counter : Nat) (purpose : Derivation.Purpose) :
    parts (Derivation.pathText keyset counter purpose) = segments keyset counter purpose := by
  let cs := ['/'].intercalate (segments keyset counter purpose)
  have hpath : (Derivation.pathText keyset counter purpose).toList = cs := by
    have hroot : "m/129372'/0'/".toList = ['m'] ++ '/' :: (Nat.toDigits 10 129372 ++ ['\''] ++
      '/' :: (Nat.toDigits 10 0 ++ ['\''] ++ ['/'])) := by decide
    have hsecond : "'/".toList = ['\'', '/'] := by decide
    have hint : (toString (keyset : Int)).toList = Nat.toDigits 10 keyset := Nat.toList_repr
    subst cs
    unfold Derivation.pathText segments
    simp only [String.toList_append, hroot, hsecond, hint, Nat.toString_eq_repr, Nat.toList_repr]
    simp
  have hfirst : ∀ c ∈ cs.head?, Text.isBlank c = false := by
    subst cs
    unfold segments
    simp
    decide
  have hlast : ∀ c ∈ cs.getLast?, Text.isBlank c = false := by
    obtain ⟨init, hinit⟩ : ∃ init, cs = init ++ Nat.toDigits 10 purpose.code := by
      refine ⟨['/'].intercalate (segments keyset counter purpose).dropLast ++ ['/'], ?_⟩
      subst cs
      simp [segments]
    intro c hc
    rw [hinit, List.getLast?_append_of_ne_nil _ Nat.toDigits_ne_nil] at hc
    exact Text.isBlank_of_isDigit (Text.isDigit_of_mem_toDigits (List.mem_of_mem_getLast? hc))
  unfold parts
  rw [Text.trim, hpath, Text.dropWhile_eq_self hfirst, Text.dropTail_eq_self hlast]
  exact List.splitOn_intercalate '/' slash_notMem_segments (List.cons_ne_nil _ _)

end ExtendedKey

namespace Derivation

variable {S : Suite} {seed : Bytes} {id : String} {c : Int} {purpose : Purpose} {bytes : Bytes}

/-- The index of a keyset is less than 2^31 - 1. -/
theorem keysetIndex_inv {i : Int} (h : keysetIndex id = .ok i) : ∃ n : Nat, i = n ∧ n < 2 ^ 31 - 1 := by
  unfold keysetIndex at h
  split at h
  · cases h
  · cases h
    rename_i n _
    exact ⟨(n % (2 ^ 31 - 1)).toNat, by omega, by omega⟩

theorem derivePath_counter {n : Nat} (h : derivePath S seed id n purpose = .ok bytes) :
    n < 2 ^ 31 := by
  obtain ⟨i, hi, h⟩ := Outcome.bind_ok_iff.mp h
  obtain ⟨keyset, rfl, -⟩ := keysetIndex_inv hi
  obtain ⟨root, -, h⟩ := Outcome.bind_ok_iff.mp h
  obtain ⟨key, hkey, -⟩ := Outcome.bind_ok_iff.mp h
  unfold ExtendedKey.descendPath at hkey
  rw [ExtendedKey.parts_pathText] at hkey
  obtain ⟨r, hr, hlt⟩ := ExtendedKey.partIndex_of_descendParts hkey (Nat.toDigits 10 n ++ ['\''])
    (by simp [ExtendedKey.segments])
  rw [ExtendedKey.partIndex_marked] at hr
  split at hr
  · cases hr
  · cases hr
    have := hlt _ rfl
    unfold ExtendedKey.hardened at this
    omega

theorem deriveHashed_counter {n : Nat} (h : deriveHashed S seed id n purpose = .ok bytes) :
    n < 2 ^ 64 := by
  obtain ⟨message, hm, -⟩ := Outcome.bind_ok_iff.mp h
  unfold hashedMessage at hm
  split at hm
  · cases hm
  · split at hm
    · cases hm
    · omega

/-- Counters of derived values are from 0 on, and eight bytes long at most. -/
theorem derive_counter (h : derive S seed id c purpose = .ok bytes) : 0 ≤ c ∧ c < 2 ^ 64 := by
  unfold derive at h
  split at h
  · cases h
  refine ⟨by omega, ?_⟩
  split at h
  · cases h
  split at h
  · have := derivePath_counter h
    omega
  · have := deriveHashed_counter h
    omega
  · cases h

end Derivation

end Ecash
