import FLang.Decimal.Lenient
import FLang.Json
import FLang.Limits

/-!
# Limits from a document

Lexical capacities as the fields of a JSON object. A number may be given as an integer, as a float
without a fraction, as a truth value or as text; fields of other names are ignored.
-/

namespace FLang.Limits

/-- The integer that a text denotes: an optional sign, digits with single underscores between them,
and optionally a point with nothing but zeros after it. -/
def readText? (text : String) : Option Int :=
  let (negative, unsigned) := Decimal.splitSign (Decimal.trimmed text.toList)
  let whole := unsigned.takeWhile (· ≠ '.')
  let fraction := (unsigned.drop whole.length).drop 1
  match Decimal.separatedDigits? whole with
  | none => none
  | some digits =>
    if fraction.all (· = '0') && text.length ≤ Decimal.digitLimit then
      some (Decimal.signed negative (Decimal.natOfDigits digits))
    else none

/-- The integer that a float without a fraction denotes, if it fits into a signed word. -/
def readFloat? (x : Float) : Option Int :=
  match Decimal.truncate? x with
  | none => none
  | some n =>
    if Float.ofInt n == x && -9223372036854775808 ≤ n && n ≤ 9223372036854775808 then
      some (min n 9223372036854775807)
    else none

/-- The integer that a field denotes. -/
def readField? : Json → Option Int
  | .int value => some value
  | .float value => readFloat? value
  | .bool value => some (if value then 1 else 0)
  | .string value => readText? value
  | _ => none

/-- The number in a field: the default if the field is missing, and zero, which no capacity may be,
if it denotes no integer. -/
def field (fields : List (String × Json)) (name : String) (default : Nat) : Int :=
  match fields.lookup name with
  | none => default
  | some document => (readField? document).getD 0

/-- Checks lexical capacities given by fields; the fields that are not positive integers are the
error. -/
def ofFields (fields : List (String × Json)) : Except (List String) Limits :=
  ofInts (field fields "identifier_limit" ({} : Limits).identifierLimit)
    (field fields "string_limit" ({} : Limits).stringLimit)
    (field fields "int_limit" ({} : Limits).intLimit)

end FLang.Limits
