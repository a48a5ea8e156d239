import FLang.Decimal.Integer
import FLang.Decimal.Reading
import FLang.Text.Classes

/-!
# Lenient integers

Integers as users write them in settings: blanks around them, single underscores between the
digits, and digits of any script are accepted.
-/

namespace FLang.Decimal

/-- A text without the blanks around it. -/
def trimmed (text : List Char) : List Char :=
  ((text.dropWhile Text.isSpace).reverse.dropWhile Text.isSpace).reverse

/-- Whether underscores, if any, stand alone and after another character, and none ends the text. -/
def underscoresSeparate : List Char → Bool
  | [] => true
  | [c] => c ≠ '_'
  | c :: d :: rest => !(c = '_' && d = '_') && underscoresSeparate (d :: rest)

/-- The digits of a text in which underscores stand only between digits. -/
def separatedDigits? (text : List Char) : Option (List Char) :=
  let digits := text.filter (· ≠ '_')
  if text.head? ≠ some '_' && underscoresSeparate text && !digits.isEmpty &&
      digits.all Char.isDigit then some digits
  else none

/-- The integer that a text denotes leniently. -/
def readLenient? (text : String) : Option Int :=
  let (negative, unsigned) := splitSign (asciiDigits (trimmed text.toList))
  match separatedDigits? unsigned with
  | none => none
  | some digits =>
    if digits.length ≤ digitLimit then some (signed negative (natOfDigits digits)) else none

end FLang.Decimal
