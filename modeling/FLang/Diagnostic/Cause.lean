import FLang.Diagnostic.Code
import FLang.Operator
import FLang.Position
import FLang.ValueType

/-!
# Causes of errors

A `Cause` is a code together with exactly the details that its wording names, so that every cause
has a complete message (`Cause.fill_details`).
-/

namespace FLang.Diagnostic

/-- What went wrong, with its details. -/
inductive Cause where
  | intCapacityExceeded
  | floatCapacityExceeded
  | identifierCapacityExceeded (limit : Nat)
  | stringCapacityExceeded (limit : Nat)
  | stringNotClosed
  | invalidEscaping (char : Char)
  | noneTokenMatch (char : Char)
  | funcDefNoParenthesis (expected name : String)
  | functionRedefinition (name : String) (earlier : Position)
  | noBlock
  | expectedRightBrace
  | noIdentifier
  | noVariableIdentifier
  | noType
  | noParametersAfterComma
  | noTypeInCast
  | missingDeclare (name : String)
  | unknownStatement (found : String)
  | expectedAssignment (name : String)
  | assignmentToFunctionCall (name : String)
  | funcCallNotClosed (name : String)
  | missingExpression (after : String)
  | noRightParenthesis
  | noLeftBraceInSwitch
  | noArrow
  | switchNotClosed
  | missingSwitchCase
  | noSwitchCases
  | badSwitchDeclaration
  | noEtxToken (found : String)
  | nestingTooDeep
  | undefinedVariable (name : String)
  | undefinedFunction (name : String)
  | redeclaredVariable (name : String) (earlier : Position)
  | redefineEmbeddedFunction (name : String)
  | typeMismatch (provided expected : ValueType)
  | operatorTypeMismatch (op : BinaryOperator) (left right : ValueType)
  | logicalOperatorTypeMismatch (op : Logical) (provided : ValueType)
  | invalidNegate (provided : ValueType)
  | wrongArgumentCount (name : String) (expected provided : Nat)
  /-- No expected type means that any value would do. -/
  | argumentTypeMismatch (index : Nat) (name : String) (expected : Option ValueType)
      (provided : ValueType)
  | invalidCast (value : String) (provided : ValueType) (target : BasicType)
  | invalidReturnType (provided expected : ValueType)
  | missingReturn (name : String) (expected : ValueType)
  | divisionByZero
  | nonBooleanCondition (construct : String) (provided : ValueType)
  | maxRecursionDepthExceeded (depth : Nat) (name : String)
  | multipleDefaultCases
  | unknownCaseShape (details : String)
  | embeddedFunctionFailed (name details : String)
  | invalidFileExtension (path extension : String)
deriving DecidableEq, Repr

namespace Cause

/-- The code of a cause. -/
def code : Cause → Code
  | intCapacityExceeded => .intCapacityExceeded
  | floatCapacityExceeded => .floatCapacityExceeded
  | identifierCapacityExceeded _ => .identifierCapacityExceeded
  | stringCapacityExceeded _ => .stringCapacityExceeded
  | stringNotClosed => .stringNotClosed
  | invalidEscaping _ => .invalidEscaping
  | noneTokenMatch _ => .noneTokenMatch
  | funcDefNoParenthesis .. => .funcDefNoParenthesis
  | functionRedefinition .. => .functionRedefinition
  | noBlock => .noBlock
  | expectedRightBrace => .expectedRightBrace
  | noIdentifier => .noIdentifier
  | noVariableIdentifier => .noVariableIdentifier
  | noType => .noType
  | noParametersAfterComma => .noParametersAfterComma
  | noTypeInCast => .noTypeInCast
  | missingDeclare _ => .missingDeclare
  | unknownStatement _ => .unknownStatement
  | expectedAssignment _ => .expectedAssignment
  | assignmentToFunctionCall _ => .assignmentToFunctionCall
  | funcCallNotClosed _ => .funcCallNotClosed
  | missingExpression _ => .missingExpression
  | noRightParenthesis => .noRightParenthesis
  | noLeftBraceInSwitch => .noLeftBraceInSwitch
  | noArrow => .noArrow
  | switchNotClosed => .switchNotClosed
  | missingSwitchCase => .missingSwitchCase
  | noSwitchCases => .noSwitchCases
  | badSwitchDeclaration => .badSwitchDeclaration
  | noEtxToken _ => .noEtxToken
  | nestingTooDeep => .nestingTooDeep
  | undefinedVariable _ => .undefinedVariable
  | undefinedFunction _ => .undefinedFunction
  | redeclaredVariable .. => .redeclaredVariable
  | redefineEmbeddedFunction _ => .redefineEmbeddedFunction
  | typeMismatch .. => .typeMismatch
  | operatorTypeMismatch .. => .operatorTypeMismatch
  | logicalOperatorTypeMismatch .. => .logicalOperatorTypeMismatch
  | invalidNegate _ => .invalidNegate
  | wrongArgumentCount .. => .wrongArgumentCount
  | argumentTypeMismatch .. => .argumentTypeMismatch
  | invalidCast .. => .invalidCast
  | invalidReturnType .. => .invalidReturnType
  | missingReturn .. => .missingReturn
  | divisionByZero => .divisionByZero
  | nonBooleanCondition .. => .nonBooleanCondition
  | maxRecursionDepthExceeded .. => .maxRecursionDepthExceeded
  | multipleDefaultCases => .multipleDefaultCases
  | unknownCaseShape _ => .unknownCaseShape
  | embeddedFunctionFailed .. => .embeddedFunctionFailed
  | invalidFileExtension .. => .invalidFileExtension

/-- The details of a cause, by the names that the templates use. -/
def details : Cause → Details
  | identifierCapacityExceeded limit => [("limit", limit.repr)]
  | stringCapacityExceeded limit => [("limit", limit.repr)]
  | invalidEscaping char => [("char", char.toString)]
  | noneTokenMatch char => [("char", char.toString)]
  | funcDefNoParenthesis expected name => [("expected", expected), ("name", name)]
  | functionRedefinition name earlier =>
    [("name", name), ("line", earlier.line.repr), ("column", earlier.column.repr)]
  | missingDeclare name => [("name", name)]
  | unknownStatement found => [("found", found)]
  | expectedAssignment name => [("name", name)]
  | assignmentToFunctionCall name => [("name", name)]
  | funcCallNotClosed name => [("name", name)]
  | missingExpression after => [("after", after)]
  | noEtxToken found => [("found", found)]
  | undefinedVariable name => [("name", name)]
  | undefinedFunction name => [("name", name)]
  | redeclaredVariable name earlier =>
    [("name", name), ("line", earlier.line.repr), ("column", earlier.column.repr)]
  | redefineEmbeddedFunction name => [("name", name)]
  | typeMismatch provided expected => [("provided", provided.name), ("expected", expected.name)]
  | operatorTypeMismatch op left right =>
    [("op", op.symbol), ("left_type", left.name), ("right_type", right.name)]
  | logicalOperatorTypeMismatch op provided => [("op", op.symbol), ("provided", provided.name)]
  | invalidNegate provided => [("provided", provided.name)]
  | wrongArgumentCount name expected provided =>
    [("name", name), ("expected", expected.repr), ("provided", provided.repr)]
  | argumentTypeMismatch index name expected provided =>
    [("arg_num", index.repr), ("name", name),
     ("expected", (expected.map ValueType.name).getD "value"), ("provided", provided.name)]
  | invalidCast value provided target =>
    [("value", value), ("provided", provided.name), ("target", target.name)]
  | invalidReturnType provided expected =>
    [("provided", provided.name), ("expected", expected.name)]
  | missingReturn name expected => [("name", name), ("expected", expected.name)]
  | nonBooleanCondition construct provided =>
    [("construct", construct), ("provided", provided.name)]
  | maxRecursionDepthExceeded depth name => [("depth", depth.repr), ("name", name)]
  | unknownCaseShape details => [("details", details)]
  | embeddedFunctionFailed name details => [("name", name), ("details", details)]
  | invalidFileExtension path extension => [("path", path), ("extension", extension)]
  | _ => []

/-- The wording of a cause. -/
def message (cause : Cause) : String :=
  match cause.code.fill cause.details with
  | .ok text => text
  | .error name => name

/-- **Complete wording.** A cause has every detail that its template names, so its message is the
completed template. -/
@[simp] theorem fill_details (cause : Cause) :
    cause.code.fill cause.details = .ok cause.message := by
  cases cause <;> rfl

end Cause

end FLang.Diagnostic
