import FLang.Decimal.Layout
import FLang.Fault
import FLang.Token

/-!
# Values

What expressions yield: a value of one of the basic types, or nothing. `render` is the text that
programs print, `describe` the text that error messages show.
-/

namespace FLang

/-- A value of the language, or the absence of one. -/
inductive Value where
  /-- No value: what a call of a function without a result yields. -/
  | void
  | int (value : Int)
  | float (value : Float)
  | bool (value : Bool)
  | string (value : String)
deriving DecidableEq

namespace Value

/-- The type of a value. -/
def type : Value → ValueType
  | void => .void
  | int _ => .basic .int
  | float _ => .basic .float
  | bool _ => .basic .bool
  | string _ => .basic .string

/-- The value of a constant. -/
def ofLiteral : Literal → Value
  | .int value => int value
  | .float value => float value
  | .bool value => bool value
  | .string value => string value

/-- The text of a value. An integer of too many digits has none. -/
def render : Value → Except Fault String
  | void => .ok "None"
  | int value =>
    match Decimal.intText? value with
    | some digits => .ok digits
    | none => .error (.tooManyDigits none)
  | float value => .ok (Decimal.Layout.value.write value)
  | bool value => .ok (if value then "true" else "false")
  | string value => .ok value

/-- The text of a value in an error message. -/
def describe : Value → Except Fault String
  | void => .ok "nothing"
  | string value => .ok ("\"" ++ value ++ "\"")
  | value => value.render

/-- The texts of some values, one after the other. -/
def renderAll : List Value → Except Fault String
  | [] => .ok ""
  | first :: rest => do
    let text ← first.render
    return text ++ (← renderAll rest)

end Value

end FLang
