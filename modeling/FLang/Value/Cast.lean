import FLang.Decimal.Reading
import FLang.Value

/-!
# Casts

Conversions between the basic types.

* to `int`: the whole part of a float; one or zero for a truth value; the integer that a text
  denotes;
* to `float`: the nearest float; one or zero; the number that a text denotes;
* to `bool`: whether a number differs from zero; the word `true` or `false`;
* to `string`: the text of the value.

What cannot be converted is an error that shows the value. A value that cannot even be shown — an
integer of too many digits — is a fault of its own.
-/

namespace FLang.Value

/-- Converts to an integer. -/
def toInt? : Value → Option Int
  | void => none
  | int value => some value
  | float value => Decimal.truncate? value
  | bool value => some (if value then 1 else 0)
  | string value =>
    match Decimal.readInt value with
    | .int n => some n
    | _ => none

/-- Whether a text has blanks at an end. -/
def isPadded (text : String) : Bool :=
  text.toList.head?.any Text.isSpace || text.toList.getLast?.any Text.isSpace

/-- Converts to a float. -/
def toFloat? : Value → Option Float
  | void => none
  | int value => Decimal.intToFloat? value
  | float value => some value
  | bool value => some (if value then 1.0 else 0.0)
  | string value => if isPadded value then none else Decimal.readFloat? value

/-- Converts to a truth value. -/
def toBool? : Value → Option Bool
  | void => none
  | int value => some (value ≠ 0)
  | float value => some !(value == 0.0)
  | bool value => some value
  | string value =>
    if value = "true" then some true else if value = "false" then some false else none

/-- Converts to a text. -/
def toText? : Value → Option String
  | void => none
  | value => value.render.toOption

/-- Converts to a basic type. -/
def convert? (value : Value) : BasicType → Option Value
  | .int => value.toInt?.map int
  | .float => value.toFloat?.map float
  | .bool => value.toBool?.map bool
  | .string => value.toText?.map string

/-- The cast of a value to a basic type, at a position. -/
def cast (value : Value) (target : BasicType) (position : Position) : Except Fault Value :=
  if value.type = target then .ok value
  else
    match value.convert? target with
    | some converted => .ok converted
    | none => do
      .error (.semantic position (.invalidCast (← value.describe) value.type target))

/-- The cast of a value to any type. Only the absence of a value is of type `void`, and nothing
can be converted to it. -/
def castTo (value : Value) (target : ValueType) (position : Position) : Except Fault Value :=
  match target with
  | .basic type => value.cast type position
  | .void => if value.type = .void then .ok value else .error (.internal (.noCast .void))

end FLang.Value
