/-!
# Types of the language

Four basic types can be written in a program. The type of what an expression yields is one of them
or `void`, the type of a call that yields no value.
-/

namespace FLang

/-- A type that a program can name. -/
inductive BasicType where
  /-- Integers of any size. -/
  | int
  /-- Double precision floats. -/
  | float
  /-- Truth values. -/
  | bool
  /-- Texts. -/
  | string
deriving DecidableEq, Repr

/-- The type of a value, or of the absence of one. -/
inductive ValueType where
  /-- No value. -/
  | void
  /-- A value of a basic type. -/
  | basic (type : BasicType)
deriving DecidableEq, Repr

instance : Coe BasicType ValueType := ⟨.basic⟩

/-- A basic type as a program writes it. -/
def BasicType.name : BasicType → String
  | .int => "int"
  | .float => "float"
  | .bool => "bool"
  | .string => "string"

/-- A type as messages write it. -/
def ValueType.name : ValueType → String
  | .void => "void"
  | .basic type => type.name

/-- The basic types, in the order in which they are listed to a user. -/
def BasicType.all : List BasicType := [.int, .float, .bool, .string]

end FLang
