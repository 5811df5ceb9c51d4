/-!
# Blank characters

`isBlank` is the white space of Unicode together with the four ASCII
separators U+001C to U+001F. `trim` takes it off both ends.
-/
namespace Ecash.Text

/-- White space that a trimmed text neither starts nor ends with. -/
def isBlank (c : Char) : Bool :=
  let n := c.toNat
  (0x09 ≤ n && n ≤ 0x0D) || (0x1C ≤ n && n ≤ 0x20) || n == 0x85 || n == 0xA0 || n == 0x1680 ||
    (0x2000 ≤ n && n ≤ 0x200A) || n == 0x2028 || n == 0x2029 || n == 0x202F || n == 0x205F ||
    n == 0x3000

/-- Without the longest tail whose characters all satisfy `p`. -/
def dropTail (p : Char → Bool) (cs : List Char) : List Char :=
  (cs.reverse.dropWhile p).reverse

/-- Without blanks at either end. -/
def trim (cs : List Char) : List Char := dropTail isBlank (cs.dropWhile isBlank)

theorem isBlank_of_isWhitespace {c : Char} (h : c.isWhitespace) : isBlank c := by
  simp only [Char.isWhitespace, Bool.or_eq_true, decide_eq_true_eq] at h
  rcases h with ((rfl | rfl) | rfl) | rfl <;> decide

@[simp] theorem dropTail_nil (p : Char → Bool) : dropTail p [] = [] := rfl

/-- Only the tail is touched. -/
theorem dropTail_isPrefix (p : Char → Bool) (cs : List Char) : dropTail p cs <+: cs := by
  have h := (List.dropWhile_suffix (l := cs.reverse) p)
  simpa [dropTail] using List.reverse_prefix.mpr h

end Ecash.Text
