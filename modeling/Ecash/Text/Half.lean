/-!
# Halves of pairs

A text from outside may hold half of a UTF-16 pair by itself. Such a half is no
character, so texts are *kept*: two characters stand for a half, a mark and one
that tells which half it is, and the mark itself is kept doubled. `keep` writes
a code point, `points` reads them back.
-/
namespace Ecash.Text

/-- The last of all characters, which no text uses. -/
def mark : Char := Char.ofNat 0x10FFFF

/-- Half of a pair, which is no character by itself. -/
def isHalf (n : Nat) : Bool := 0xD800 ≤ n && n < 0xE000

/-- The first half of a pair. -/
def isHigh (n : Nat) : Bool := 0xD800 ≤ n && n < 0xDC00

/-- The second half of a pair. -/
def isLow (n : Nat) : Bool := 0xDC00 ≤ n && n < 0xE000

/-- The code point of a pair. -/
def joinHalves (high low : Nat) : Nat := 0x10000 + (high - 0xD800) * 0x400 + (low - 0xDC00)

/-- Code points from UTF-16 units; halves that belong together are joined. -/
def joinUnits : List Nat → List Nat
  | n :: m :: rest =>
    if isHigh n && isLow m then joinHalves n m :: joinUnits rest else n :: joinUnits (m :: rest)
  | ns => ns

/-- Where the characters begin that tell the halves apart. -/
def halfBase : Nat := 0x100000

/-- A code point as it is kept. -/
def keep (n : Nat) : List Char :=
  if isHalf n then [mark, Char.ofNat (halfBase + (n - 0xD800))]
  else if n = 0x10FFFF then [mark, mark]
  else [Char.ofNat n]

/-- The code points of a kept text. -/
def points : List Char → List Nat
  | [] => []
  | [c] => [c.toNat]
  | c :: d :: rest =>
    if c = mark then
      (if d = mark then 0x10FFFF else 0xD800 + (d.toNat - halfBase)) :: points rest
    else c.toNat :: points (d :: rest)

/-- The characters of a kept text, each as it is kept. -/
def characters (cs : List Char) : List (List Char) := (points cs).map keep

/-- A text of characters only, as it is kept. -/
def kept (s : String) : String := String.ofList (s.toList.flatMap fun c => keep c.toNat)

/-- A half stands somewhere in the text. -/
def hasHalf (s : String) : Bool := (points s.toList).any isHalf

/-! ## Nothing is lost -/

/-- What can be kept: the code points. -/
def IsPoint (n : Nat) : Prop := n ≤ 0x10FFFF

theorem isHalf_iff {n : Nat} : isHalf n = true ↔ 0xD800 ≤ n ∧ n < 0xE000 := by
  unfold isHalf; rw [Bool.and_eq_true, decide_eq_true_iff, decide_eq_true_iff]

theorem toNat_ofNat {n : Nat} (h : n ≤ 0x10FFFF) (hn : ¬isHalf n = true) : (Char.ofNat n).toNat = n := by
  rw [isHalf_iff] at hn
  have hv : n.isValidChar := by unfold Nat.isValidChar; omega
  unfold Char.ofNat
  rw [dif_pos hv]
  rfl

theorem toNat_mark : mark.toNat = 0x10FFFF := by decide

theorem ofNat_ne_mark {n : Nat} (h : n < 0x10FFFF) (hn : ¬isHalf n = true) : Char.ofNat n ≠ mark := by
  intro he
  have := congrArg Char.toNat he
  rw [toNat_ofNat (by omega) hn, toNat_mark] at this
  omega

theorem points_keep_append {n : Nat} (h : IsPoint n) (rest : List Char) :
    points (keep n ++ rest) = n :: points rest := by
  unfold IsPoint at h
  unfold keep
  by_cases hh : isHalf n = true
  · have hr := isHalf_iff.mp hh
    have hb : halfBase = 0x100000 := rfl
    have hx : ¬isHalf (halfBase + (n - 0xD800)) = true := by rw [isHalf_iff]; omega
    rw [if_pos hh, List.cons_append, List.cons_append, List.nil_append, points, if_pos rfl,
      if_neg (ofNat_ne_mark (by omega) hx), toNat_ofNat (by omega) hx,
      show 0xD800 + (halfBase + (n - 0xD800) - halfBase) = n by omega]
  · rw [if_neg hh]
    by_cases hm : n = 0x10FFFF
    · rw [if_pos hm, hm, List.cons_append, List.cons_append, List.nil_append, points, if_pos rfl, if_pos rfl]
    · have hne := ofNat_ne_mark (show n < 0x10FFFF by omega) hh
      rw [if_neg hm, List.cons_append, List.nil_append]
      cases rest with
      | nil => exact congrArg (fun m => [m]) (toNat_ofNat h hh)
      | cons d rest => rw [points, if_neg hne, toNat_ofNat h hh]

/-- What was kept is read back. -/
theorem points_flatMap_keep (ns : List Nat) (h : ∀ n ∈ ns, IsPoint n) : points (ns.flatMap keep) = ns := by
  induction ns with
  | nil => rfl
  | cons n ns ih =>
    rw [List.flatMap_cons, points_keep_append (h n (by simp)), ih fun m hm => h m (by simp [hm])]

end Ecash.Text
