import FLang.Embedded

/-!
# The standard functions

`print` and `println` write their arguments one after the other. `modulo` tells whether an integer
is divisible by another one. `sqrt` and `power` compute with floats: what has no real value is
outside their domain, and what exceeds the floats is outside their range.
-/

namespace FLang.Embedded

/-- Prints arguments and a text after them. -/
def printing (ending : String) (arguments : List Value) : Reply :=
  match Value.renderAll arguments with
  | .ok text => ⟨text ++ ending, .ok .void⟩
  | .error fault => .refuse fault.message

/-- Whether the first integer is divisible by the second one: nothing is left of it. What is left
has the sign of the divisor. -/
def divisible : List Value → Reply
  | .int a :: .int b :: _ =>
    if b = 0 then .refuse "integer modulo by zero" else .value (.bool (a.fmod b == 0))
  | _ => .missingArgument

/-- The square root of a float that is not negative. -/
def squareRoot : List Value → Reply
  | .float x :: _ => if x < 0.0 then .refuse "math domain error" else .value (.float x.sqrt)
  | _ => .missingArgument

/-- A power of a float. A power of finite numbers that is not finite is an error: a power of zero
to a negative number and a root of a negative number lie outside the domain, all else outside the
range. -/
def powerOf : List Value → Reply
  | .float x :: .float y :: _ =>
    let result := x.pow y
    if x.isFinite && y.isFinite && !result.isFinite then
      if result.isNaN || Float.beq x 0.0 then .refuse "math domain error"
      else .refuse "math range error"
    else .value (.float result)
  | _ => .missingArgument

/-- The function `print`. -/
def print : Embedded where
  name := "print"
  parameters := []
  variadic := true
  returnType := .void
  doc :=
    { summary := some "Writes its arguments, rendered as text, with no separator."
      parameters := some [("values...", "Any number of values of any type.")]
      returns := some "Nothing." }
  behavior := printing ""

/-- The function `println`. -/
def println : Embedded where
  name := "println"
  parameters := []
  variadic := true
  returnType := .void
  doc :=
    { summary := some "Writes its arguments, rendered as text, followed by a newline."
      parameters := some [("values...", "Any number of values of any type.")]
      returns := some "Nothing." }
  behavior := printing "\n"

/-- The function `modulo`. -/
def modulo : Embedded where
  name := "modulo"
  parameters := [.basic .int, .basic .int]
  variadic := false
  returnType := .basic .bool
  doc :=
    { summary := some "Tests whether the first number is divisible by the second."
      parameters := some [("value", "The dividend."), ("divisor", "The divisor, must not be 0.")]
      returns := some "true when the remainder is zero." }
  behavior := divisible

/-- The function `sqrt`. -/
def sqrt : Embedded where
  name := "sqrt"
  parameters := [.basic .float]
  variadic := false
  returnType := .basic .float
  doc :=
    { summary := some "Calculates the square root of a number."
      parameters := some [("value", "A non-negative float.")]
      returns := some "The square root as a float." }
  behavior := squareRoot

/-- The function `power`. -/
def power : Embedded where
  name := "power"
  parameters := [.basic .float, .basic .float]
  variadic := false
  returnType := .basic .float
  doc :=
    { summary := some "Raises a number to a power."
      parameters := some [("base", "The base."), ("exponent", "The exponent.")]
      returns := some "base raised to exponent, as a float." }
  behavior := powerOf

end FLang.Embedded

namespace FLang

/-- The functions that every program can call. -/
def Registry.standard : Registry :=
  ⟨[Embedded.print, Embedded.println, Embedded.modulo, Embedded.sqrt, Embedded.power]⟩

end FLang
