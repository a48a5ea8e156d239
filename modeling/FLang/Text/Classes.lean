import FLang.Text.Letters
import FLang.Text.Numerals
import FLang.Text.Unprintable

/-!
# Character classes

The classes of characters that the language and its tools distinguish. ASCII is decided by
comparison; beyond it each class is a table of Unicode 14 ranges.

* `isSpace` — blanks between tokens, and what may not surround a number in a cast;
* `isLetter`, `isNamePart` — what a name is made of;
* `isWordPart` — what an editor takes for one word; every name is a single word
  (`isWordPart_of_isNamePart`);
* `digitValue?` — the value of a decimal digit of any script.
-/

namespace FLang.Text

/-- Whether a code point lies in one of some inclusive ranges. -/
def inRanges (ranges : List (Nat × Nat)) (n : Nat) : Bool :=
  ranges.any fun r => r.1 ≤ n && n ≤ r.2

/-- The blank characters above `0x7F`. -/
def blankRanges : List (Nat × Nat) :=
  [(0x85, 0x85), (0xA0, 0xA0), (0x1680, 0x1680), (0x2000, 0x200A), (0x2028, 0x2029),
   (0x202F, 0x202F), (0x205F, 0x205F), (0x3000, 0x3000)]

/-- White space: the ASCII blanks and line breaks, the separators `0x1C` to `0x1F`, and the
blanks of `blankRanges`. -/
def isSpace (c : Char) : Bool :=
  let n := c.toNat
  (9 ≤ n && n ≤ 13) || (0x1C ≤ n && n ≤ 0x20) || inRanges blankRanges n

/-- A letter of any script. -/
def isLetter (c : Char) : Bool :=
  let n := c.toNat
  if n ≤ 0x7F then ('a' ≤ c && c ≤ 'z') || ('A' ≤ c && c ≤ 'Z') else inRanges letterRanges n

/-- A character that continues a name: a letter, an ASCII digit or an underscore. -/
def isNamePart (c : Char) : Bool :=
  isLetter c || c.isDigit || c == '_'

/-- A character of a word under an editor's cursor: a letter, a numeral of any script or an
underscore. -/
def isWordPart (c : Char) : Bool :=
  isLetter c || c.isDigit || inRanges numeralRanges c.toNat || c == '_'

/-- A character that a quoted text shows as itself. -/
def isPrintable (c : Char) : Bool :=
  !inRanges unprintableRanges c.toNat

/-- The value of a decimal digit of any script. -/
def digitValue? (c : Char) : Option Nat :=
  (decimalZeros.find? fun first => first ≤ c.toNat && c.toNat < first + 10).map (c.toNat - ·)

/-- Every name character is a word character. -/
theorem isWordPart_of_isNamePart {c : Char} (h : isNamePart c = true) : isWordPart c = true := by
  simp only [isNamePart, isWordPart, Bool.or_eq_true] at h ⊢
  rcases h with (h | h) | h <;> simp [h]

end FLang.Text
