import FLang.Value

/-!
# Embedded functions

Functions that programs can call without defining them. An embedded function takes values and
replies with what it prints and with a value or a failure. A registry holds embedded functions of
different names in the order in which they were registered.
-/

namespace FLang

/-- Why an embedded function has no value to give. -/
inductive Embedded.Failure where
  /-- The function refuses its arguments: an error of the program. -/
  | refused (details : String)
  /-- Any other failure; it is passed on as it is. -/
  | escaped (fault : Fault)
deriving DecidableEq, Repr

/-- What a call of an embedded function does. -/
structure Embedded.Reply where
  /-- What it prints. -/
  printed : String
  /-- Its value. -/
  result : Except Embedded.Failure Value

/-- What a user is told about an embedded function. -/
structure Embedded.Doc where
  /-- What it does, in a sentence. -/
  summary : Option String := none
  /-- The name and the meaning of each parameter. -/
  parameters : Option (List (String × String)) := none
  /-- What it returns. -/
  returns : Option String := none
deriving DecidableEq, Repr

/-- A function that programs can call without defining it. -/
structure Embedded where
  /-- Its name. -/
  name : String
  /-- The types of its arguments. -/
  parameters : List ValueType
  /-- Whether it takes any number of arguments of any type instead. -/
  variadic : Bool
  /-- The type of its value. -/
  returnType : ValueType
  /-- What a user is told about it. -/
  doc : Embedded.Doc
  /-- What it does. -/
  behavior : List Value → Embedded.Reply

/-- The embedded functions that a program can call. -/
structure Registry where
  functions : List Embedded

namespace Embedded

/-- A reply with a value and nothing printed. -/
def Reply.value (value : Value) : Reply :=
  ⟨"", .ok value⟩

/-- A reply that refuses the arguments. -/
def Reply.refuse (details : String) : Reply :=
  ⟨"", .error (.refused details)⟩

/-- A reply that an argument is missing. -/
def Reply.missingArgument : Reply :=
  ⟨"", .error (.escaped .missingItem)⟩

/-- Whether nothing is told about a function. -/
def Doc.isEmpty (doc : Doc) : Bool :=
  doc.summary.isNone && doc.parameters.isNone && doc.returns.isNone

/-- How many arguments a function takes; none if any number. -/
def arity (function : Embedded) : Option Nat :=
  if function.variadic then none else some function.parameters.length

/-- The signature of a function. -/
def signature (function : Embedded) : String :=
  let parameters :=
    if function.variadic then "..."
    else String.intercalate ", " (function.parameters.map ValueType.name)
  function.name ++ "(" ++ parameters ++ ") " ++ function.returnType.name

end Embedded

namespace Registry

/-- The function of a name. -/
def find? (registry : Registry) (name : String) : Option Embedded :=
  registry.functions.find? fun function => function.name == name

/-- Whether there is a function of a name. -/
def contains (registry : Registry) (name : String) : Bool :=
  (registry.find? name).isSome

/-- Adds a function at the end, or in the place of the one that has its name. -/
def register (registry : Registry) (function : Embedded) : Registry :=
  if registry.contains function.name then
    ⟨registry.functions.map fun other => if other.name == function.name then function else other⟩
  else ⟨registry.functions ++ [function]⟩

/-- The functions whose names are listed. -/
def keep (registry : Registry) (names : List String) : Registry :=
  ⟨registry.functions.filter fun function => names.contains function.name⟩

end Registry

end FLang
