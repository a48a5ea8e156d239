import FLang.Decimal.Layout
import FLang.Text.Classes

/-!
# Numbers from text

Conversions into floats and out of them, each correctly rounded: from a decimal, from an integer,
from the text of a number, and the whole part of a float as an integer.

The text of a number is an optional sign, then digits with an optional point among or beside them
and an optional exponent, or one of the words `inf`, `infinity` and `nan` in any case. The digits
may be of any script.
-/

namespace FLang.Decimal

/-- The float nearest to `digits · 10 ^ exponent`. Magnitudes far outside the range of floats are
decided by the number of digits alone. -/
def toFloat (s : Scientific) : Float :=
  let power := s.exponent + (natDigits s.digits).length
  if s.digits = 0 then 0.0
  else if power > 310 then Float.ofScientific 1 false 400
  else if power < -330 then 0.0
  else Float.ofScientific s.digits (s.exponent < 0) s.exponent.natAbs

/-- The float nearest to an integer; none if the integer lies beyond the largest float. -/
def intToFloat? (n : Int) : Option Float :=
  let x := toFloat ⟨n.natAbs, 0⟩
  if x.isInf then none else some (if n < 0 then -x else x)

/-- The whole part of a float, rounding toward zero; none for what is not a finite number. -/
def truncate? (x : Float) : Option Int :=
  match shape x with
  | .finite negative mantissa exponent =>
    some (signed negative (mantissa * Nat.pow 2 exponent.toNat / Nat.pow 2 (-exponent).toNat))
  | _ => none

/-- Replaces decimal digits of any script by the ASCII digits. -/
def asciiDigits (text : List Char) : List Char :=
  text.map fun c => ((Text.digitValue? c).map Nat.digitChar).getD c

/-- The exponent that ends a number's text; zero if there is none. -/
def readExponent? (text : List Char) : Option Int :=
  match text with
  | [] => some 0
  | mark :: rest =>
    if mark = 'e' || mark = 'E' then
      let (negative, digits) := splitSign rest
      if !digits.isEmpty && digits.all Char.isDigit then
        some (signed negative (natOfDigits digits))
      else none
    else none

/-- An unsigned number of digits, with an optional point and an optional exponent. -/
def readScientific? (text : List Char) : Option Scientific :=
  let whole := text.takeWhile Char.isDigit
  let afterWhole := text.dropWhile Char.isDigit
  let (fraction, afterFraction) :=
    match afterWhole with
    | '.' :: rest => (rest.takeWhile Char.isDigit, rest.dropWhile Char.isDigit)
    | _ => ([], afterWhole)
  if whole.isEmpty && fraction.isEmpty then none
  else
    (readExponent? afterFraction).map fun exponent =>
      ⟨natOfDigits (whole ++ fraction), exponent - fraction.length⟩

/-- Reads the text of a number, with no blanks around it and no separators between its digits. -/
def readFloat? (text : String) : Option Float :=
  let (negative, body) := splitSign (asciiDigits text.toList)
  let word := String.ofList (body.map Char.toLower)
  let magnitude :=
    if word = "inf" || word = "infinity" then some (Float.ofScientific 1 false 400)
    else if word = "nan" then some (0.0 / 0.0)
    else (readScientific? body).map toFloat
  magnitude.map fun x => if negative then -x else x

end FLang.Decimal
