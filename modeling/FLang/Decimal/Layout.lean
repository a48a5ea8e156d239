import FLang.Decimal.Integer
import FLang.Decimal.Shortest

/-!
# Floats as decimal text

A float is written with its shortest digits. A `Layout` says how: which powers of ten are written
positionally, and the words for what is not a number of digits. Two layouts are used.

* `Layout.value` — what programs print: positional from `0.0001` up to sixteen digits before the
  point, an exponent of a sign and at least two digits beyond;
* `Layout.source` — what source texts hold: positional always, since literals have no exponent.

A number written positionally always keeps a digit after the point.
-/

namespace FLang.Decimal

/-- How floats are written. -/
structure Layout where
  /-- Whether a number whose first digit has this power of ten is written positionally. -/
  positional : Int → Bool
  /-- The word for infinity. -/
  infinity : String
  /-- The word for what is not a number. -/
  nan : String

/-- Positional between `0.0001` and `10 ^ 16`. -/
def Layout.value : Layout where
  positional := fun power => -4 ≤ power && power < 16
  infinity := "inf"
  nan := "nan"

/-- Positional always. The words for infinity and for what is not a number take the place of the
digits before the point. -/
def Layout.source : Layout where
  positional := fun _ => true
  infinity := "Infinity.0"
  nan := "NaN.0"

/-- Digits around a point: a zero stands on a side that has none. -/
def pointed (whole fraction : List Char) : List Char :=
  (if whole.isEmpty then ['0'] else whole) ++ '.' :: (if fraction.isEmpty then ['0'] else fraction)

/-- A decimal in positional notation. -/
def Scientific.positional (s : Scientific) : List Char :=
  let digits := natDigits s.digits
  if 0 ≤ s.exponent then pointed (digits ++ List.replicate s.exponent.toNat '0') []
  else
    let places := (-s.exponent).toNat
    if places < digits.length then
      pointed (digits.take (digits.length - places)) (digits.drop (digits.length - places))
    else pointed [] (List.replicate (places - digits.length) '0' ++ digits)

/-- An exponent: a sign and at least two digits. -/
def exponentText (power : Int) : List Char :=
  let digits := natDigits power.natAbs
  'e' :: (if power < 0 then '-' else '+') :: (if digits.length < 2 then '0' :: digits else digits)

/-- A decimal with one digit before the point and an exponent; no point if that digit is all. -/
def Scientific.exponential (s : Scientific) : List Char :=
  let digits := natDigits s.digits
  let power := s.exponent + digits.length - 1
  match digits with
  | [] => []
  | [digit] => digit :: exponentText power
  | digit :: more => digit :: '.' :: more ++ exponentText power

/-- The text of a decimal in a layout. -/
def Layout.writeScientific (l : Layout) (s : Scientific) : List Char :=
  if l.positional (s.exponent + (natDigits s.digits).length - 1) then s.positional
  else s.exponential

/-- The text of a float in a layout. -/
def Layout.write (l : Layout) (x : Float) : String :=
  let sign (negative : Bool) (text : String) := if negative then "-" ++ text else text
  match shape x with
  | .nan => l.nan
  | .infinite negative => sign negative l.infinity
  | .finite negative mantissa exponent =>
    sign negative (String.ofList (l.writeScientific (shortest mantissa exponent)))

end FLang.Decimal
