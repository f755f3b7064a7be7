import CleanDiff.Text.Basic

/-!
# Blank characters

The characters with the Unicode property `White_Space`. They are the ones that
never count when two texts are compared, and the ones trimmed off the ends of a
written name. Zero-width characters, the byte order mark and the separators
U+001C to U+001F are not among them.
-/

namespace CleanDiff

/-- Has the character the Unicode property `White_Space`? -/
def isBlank (c : Char) : Bool :=
  let n := c.toNat
  (0x09 ≤ n && n ≤ 0x0D) || n == 0x20 || n == 0x85 || n == 0xA0 || n == 0x1680 ||
  (0x2000 ≤ n && n ≤ 0x200A) || n == 0x2028 || n == 0x2029 || n == 0x202F ||
  n == 0x205F || n == 0x3000

/-- Is a code the one of an ASCII blank: the space, the tab, or one of the four
line and page ends? -/
def isAsciiBlank (code : Nat) : Bool := code = 0x20 || (0x09 ≤ code && code ≤ 0x0D)

namespace Text

/-- The text without its blank characters. -/
def dropBlanks (t : Text) : Text := t.filter fun c => !isBlank c

/-- The text without the blank characters at its two ends. -/
def trim (t : Text) : Text :=
  ((t.dropWhile isBlank).reverse.dropWhile isBlank).reverse

@[simp]
theorem dropBlanks_append (s t : Text) : dropBlanks (s ++ t) = dropBlanks s ++ dropBlanks t := by
  simp [dropBlanks]

end Text

end CleanDiff
