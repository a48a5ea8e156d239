import FLang.Decimal.Integer
import FLang.Diagnostic

/-!
# Faults

Everything that can stop a computation of this library. A `diagnostic` is an error of the program
being processed; the other faults are limits of the implementation, misuse of its interface, or
failures of an embedded function that are none of the language's own.
-/

namespace FLang

/-- A request that the interface of an evaluator or a printer does not serve. -/
inductive InternalError where
  /-- The scope of this index is not open. -/
  | scopeNotOpen (index : Nat)
  /-- This kind of node has no value. -/
  | noEvaluator (kind : String)
  /-- This kind of node cannot be executed. -/
  | noExecutor (kind : String)
  /-- This kind of node has no printed form here. -/
  | noPrinter (kind : String)
  /-- Nothing can be converted to this type. -/
  | noCast (target : ValueType)
deriving DecidableEq, Repr

/-- What stopped a computation. -/
inductive Fault where
  /-- An error of the program. -/
  | diagnostic (d : Diagnostic)
  /-- Misuse of an interface. -/
  | internal (error : InternalError)
  /-- Something that is not a value of the language was used as one. -/
  | notAValue
  /-- An index names no item: a scope, an argument or a line. -/
  | missingItem
  /-- A variable was to be declared while no scope is open. -/
  | noScope
  /-- An index names no character of a line. -/
  | missingCharacter
  /-- An integer and its decimal text cannot be converted: too many digits. Their number is known
  when the text was given. -/
  | tooManyDigits (digits : Option Nat)
  /-- An integer exceeds the range of floats. -/
  | tooLargeForFloat
  /-- A failure of an embedded function that the language does not know. -/
  | escaped (text : String)
deriving DecidableEq, Repr

/-- The wording of an internal error. -/
def InternalError.message : InternalError → String
  | .scopeNotOpen index => "Scope " ++ index.repr ++ " is not open."
  | .noEvaluator kind => "No evaluator for AST node kind '" ++ kind ++ "'."
  | .noExecutor kind => "No executor for AST node kind '" ++ kind ++ "'."
  | .noPrinter kind => "No printer for AST node kind '" ++ kind ++ "'."
  | .noCast target => "No cast to '" ++ target.name ++ "' exists."

namespace Fault

/-- The wording of a fault. -/
def message : Fault → String
  | diagnostic d => d.message
  | internal error => error.message
  | notAValue => "'list' is not a runtime value of the language"
  | missingItem => "list index out of range"
  | noScope => "list indices must be integers or slices, not NoneType"
  | missingCharacter => "string index out of range"
  | tooManyDigits digits =>
    "Exceeds the limit (" ++ Decimal.digitLimit.repr ++ " digits) for integer string conversion" ++
    (match digits with
     | some n => ": value has " ++ n.repr ++ " digits"
     | none => "") ++
    "; use sys.set_int_max_str_digits() to increase the limit"
  | tooLargeForFloat => "int too large to convert to float"
  | escaped text => text

/-- The name of a kind of fault, as a report of an unexpected one begins. -/
def title : Fault → String
  | diagnostic _ => "FLError"
  | internal _ => "InternalInterpreterError"
  | notAValue | noScope => "TypeError"
  | missingItem | missingCharacter => "IndexError"
  | tooManyDigits _ => "ValueError"
  | tooLargeForFloat => "OverflowError"
  | escaped _ => "RuntimeError"

/-- A lexical error at a position. -/
def lexical (position : Position) (cause : Diagnostic.Cause) : Fault :=
  .diagnostic { stage := .lexical, cause, position }

/-- A syntax error at a position. -/
def grammatical (position : Position) (cause : Diagnostic.Cause) : Fault :=
  .diagnostic { stage := .grammatical, cause, position }

/-- An error of a running program at a position. -/
def semantic (position : Position) (cause : Diagnostic.Cause) : Fault :=
  .diagnostic { stage := .semantic, cause, position }

/-- The same fault, with a diagnostic located in a file unless it already is in one. -/
def inFile (fault : Fault) (file : String) : Fault :=
  match fault with
  | diagnostic d => diagnostic (if d.file.isNone then d.inFile file else d)
  | other => other

end Fault

end FLang
