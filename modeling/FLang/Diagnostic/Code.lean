/-!
# Error codes and their wording

Every error that a user of the language can meet has a code, and every code a template: a text with
named fields. `Code.fill` completes a template from details; a field for which there is no detail
is reported by its name.
-/

namespace FLang.Diagnostic

/-- What went wrong, without the details. -/
inductive Code where
  | intCapacityExceeded
  | floatCapacityExceeded
  | identifierCapacityExceeded
  | stringCapacityExceeded
  | stringNotClosed
  | invalidEscaping
  | noneTokenMatch
  | funcDefNoParenthesis
  | functionRedefinition
  | noBlock
  | expectedRightBrace
  | noIdentifier
  | noVariableIdentifier
  | noType
  | noParametersAfterComma
  | noTypeInCast
  | missingDeclare
  | unknownStatement
  | expectedAssignment
  | assignmentToFunctionCall
  | funcCallNotClosed
  | missingExpression
  | noRightParenthesis
  | noLeftBraceInSwitch
  | noArrow
  | switchNotClosed
  | missingSwitchCase
  | noSwitchCases
  | badSwitchDeclaration
  | noEtxToken
  | nestingTooDeep
  | undefinedVariable
  | undefinedFunction
  | redeclaredVariable
  | redefineEmbeddedFunction
  | typeMismatch
  | operatorTypeMismatch
  | logicalOperatorTypeMismatch
  | invalidNegate
  | wrongArgumentCount
  | argumentTypeMismatch
  | invalidCast
  | invalidReturnType
  | missingReturn
  | divisionByZero
  | nonBooleanCondition
  | maxRecursionDepthExceeded
  | multipleDefaultCases
  | unknownCaseShape
  | embeddedFunctionFailed
  | invalidFileExtension
deriving DecidableEq, Repr

/-- A part of a template. -/
inductive Piece where
  /-- Text that stands as it is. -/
  | text (text : String)
  /-- A place for the detail of this name. -/
  | field (name : String)
deriving DecidableEq, Repr

instance : Coe String Piece := ⟨.text⟩

/-- Named details of an error, as text. -/
abbrev Details := List (String × String)

namespace Code

/-- All codes, in the order of the catalogue. -/
def all : List Code :=
  [.intCapacityExceeded, .floatCapacityExceeded, .identifierCapacityExceeded,
   .stringCapacityExceeded, .stringNotClosed, .invalidEscaping, .noneTokenMatch,
   .funcDefNoParenthesis, .functionRedefinition, .noBlock, .expectedRightBrace, .noIdentifier,
   .noVariableIdentifier, .noType, .noParametersAfterComma, .noTypeInCast, .missingDeclare,
   .unknownStatement, .expectedAssignment, .assignmentToFunctionCall, .funcCallNotClosed,
   .missingExpression, .noRightParenthesis, .noLeftBraceInSwitch, .noArrow, .switchNotClosed,
   .missingSwitchCase, .noSwitchCases, .badSwitchDeclaration, .noEtxToken, .nestingTooDeep,
   .undefinedVariable, .undefinedFunction, .redeclaredVariable, .redefineEmbeddedFunction,
   .typeMismatch, .operatorTypeMismatch, .logicalOperatorTypeMismatch, .invalidNegate,
   .wrongArgumentCount, .argumentTypeMismatch, .invalidCast, .invalidReturnType, .missingReturn,
   .divisionByZero, .nonBooleanCondition, .maxRecursionDepthExceeded, .multipleDefaultCases,
   .unknownCaseShape, .embeddedFunctionFailed, .invalidFileExtension]

/-- The name under which a code is reported to other programs. -/
def name : Code → String
  | intCapacityExceeded => "INT_CAPACITY_EXCEEDED"
  | floatCapacityExceeded => "FLOAT_CAPACITY_EXCEEDED"
  | identifierCapacityExceeded => "IDENTIFIER_CAPACITY_EXCEEDED"
  | stringCapacityExceeded => "STRING_CAPACITY_EXCEEDED"
  | stringNotClosed => "STRING_NOT_CLOSED"
  | invalidEscaping => "INVALID_ESCAPING"
  | noneTokenMatch => "NONE_TOKEN_MATCH"
  | funcDefNoParenthesis => "FUNC_DEF_NO_PARENTHESIS"
  | functionRedefinition => "FUNCTION_REDEFINITION"
  | noBlock => "NO_BLOCK"
  | expectedRightBrace => "EXPECTED_RIGHT_BRACE"
  | noIdentifier => "NO_IDENTIFIER"
  | noVariableIdentifier => "NO_VARIABLE_IDENTIFIER"
  | noType => "NO_TYPE"
  | noParametersAfterComma => "NO_PARAMETERS_AFTER_COMMA"
  | noTypeInCast => "NO_TYPE_IN_CAST"
  | missingDeclare => "MISSING_DECLARE"
  | unknownStatement => "UNKNOWN_STATEMENT"
  | expectedAssignment => "EXPECTED_ASSIGNMENT"
  | assignmentToFunctionCall => "ASSIGNMENT_TO_FUNCTION_CALL"
  | funcCallNotClosed => "FUNC_CALL_NOT_CLOSED"
  | missingExpression => "MISSING_EXPRESSION"
  | noRightParenthesis => "NO_RIGHT_PARENTHESIS"
  | noLeftBraceInSwitch => "NO_LEFT_BRACE_IN_SWITCH"
  | noArrow => "NO_ARROW"
  | switchNotClosed => "SWITCH_NOT_CLOSED"
  | missingSwitchCase => "MISSING_SWITCH_CASE"
  | noSwitchCases => "NO_SWITCH_CASES"
  | badSwitchDeclaration => "BAD_SWITCH_DECLARATION"
  | noEtxToken => "NO_ETX_TOKEN"
  | nestingTooDeep => "NESTING_TOO_DEEP"
  | undefinedVariable => "UNDEFINED_VARIABLE"
  | undefinedFunction => "UNDEFINED_FUNCTION"
  | redeclaredVariable => "REDECLARED_VARIABLE"
  | redefineEmbeddedFunction => "REDEFINE_EMBEDDED_FUNCTION"
  | typeMismatch => "TYPE_MISMATCH"
  | operatorTypeMismatch => "OPERATOR_TYPE_MISMATCH"
  | logicalOperatorTypeMismatch => "LOGICAL_OPERATOR_TYPE_MISMATCH"
  | invalidNegate => "INVALID_NEGATE"
  | wrongArgumentCount => "WRONG_ARGUMENT_COUNT"
  | argumentTypeMismatch => "ARGUMENT_TYPE_MISMATCH"
  | invalidCast => "INVALID_CAST"
  | invalidReturnType => "INVALID_RETURN_TYPE"
  | missingReturn => "MISSING_RETURN"
  | divisionByZero => "DIVISION_BY_ZERO"
  | nonBooleanCondition => "NON_BOOLEAN_CONDITION"
  | maxRecursionDepthExceeded => "MAX_RECURSION_DEPTH_EXCEEDED"
  | multipleDefaultCases => "MULTIPLE_DEFAULT_CASES"
  | unknownCaseShape => "UNKNOWN_CASE_SHAPE"
  | embeddedFunctionFailed => "EMBEDDED_FUNCTION_FAILED"
  | invalidFileExtension => "INVALID_FILE_EXTENSION"

/-- The code with a name, if there is one. -/
def ofName? (text : String) : Option Code :=
  all.find? fun code => code.name == text

/-- The wording of an error, with places for its details. -/
def template : Code → List Piece
  | intCapacityExceeded => ["Int value limit exceeded."]
  | floatCapacityExceeded => ["Float decimal value limit exceeded."]
  | identifierCapacityExceeded =>
    ["Identifier capacity exceeded (limit is ", .field "limit", " characters)."]
  | stringCapacityExceeded =>
    ["String capacity exceeded (limit is ", .field "limit", " characters)."]
  | stringNotClosed => ["String not closed, perhaps you forgot '\"'."]
  | invalidEscaping => ["Invalid escape sequence '\\", .field "char", "'."]
  | noneTokenMatch => ["No token matches the source at character '", .field "char", "'."]
  | funcDefNoParenthesis =>
    ["Syntax Error: Expected '", .field "expected", "' in the definition of function '",
     .field "name", "'."]
  | functionRedefinition =>
    ["Syntax Error: Function '", .field "name", "' is already defined at (Line: ", .field "line",
     ", Column: ", .field "column", ")."]
  | noBlock => ["Syntax Error: Expected a block starting with '\x7b'."]
  | expectedRightBrace => ["Syntax Error: Expected '\x7d' to close the block."]
  | noIdentifier => ["Syntax Error: Identifier required after ','."]
  | noVariableIdentifier => ["Syntax Error: No identifier in variable declaration."]
  | noType => ["Syntax Error: No type annotation for parameter group."]
  | noParametersAfterComma => ["Syntax Error: No parameters defined after ','."]
  | noTypeInCast => ["Syntax Error: No type annotation after 'as'."]
  | missingDeclare =>
    ["Syntax Error: Expected ':=' after '", .field "name", "' in variable declaration."]
  | unknownStatement => ["Syntax Error: Unknown statement starting with ", .field "found", "."]
  | expectedAssignment =>
    ["Syntax Error: Expected '=' or a call after identifier '", .field "name", "'."]
  | assignmentToFunctionCall =>
    ["Syntax Error: Cannot assign a value to the call of '", .field "name", "'."]
  | funcCallNotClosed =>
    ["Syntax Error: Call of '", .field "name", "' is not closed, perhaps you forgot ')'."]
  | missingExpression => ["Syntax Error: Missing expression after ", .field "after", "."]
  | noRightParenthesis => ["Syntax Error: Expected ')' to close the nested expression."]
  | noLeftBraceInSwitch => ["Syntax Error: Expected '\x7b' to open the switch cases."]
  | noArrow => ["Syntax Error: Expected '=>' in switch case."]
  | switchNotClosed => ["Syntax Error: Switch statement not closed, expected '\x7d'."]
  | missingSwitchCase =>
    ["Syntax Error: Missing switch case, perhaps you have ',' after the last case."]
  | noSwitchCases => ["Syntax Error: No switch cases defined."]
  | badSwitchDeclaration =>
    ["Syntax Error: Expected a variable declaration after ',' in switch statement."]
  | noEtxToken =>
    ["Syntax Error: Unexpected ", .field "found", " after the last function definition."]
  | nestingTooDeep => ["Syntax Error: Expressions or blocks are nested too deeply."]
  | undefinedVariable => ["Variable '", .field "name", "' is not defined."]
  | undefinedFunction => ["Function '", .field "name", "' is not defined."]
  | redeclaredVariable =>
    ["Variable '", .field "name", "' is already declared in this scope at (Line: ", .field "line",
     ", Column: ", .field "column", ")."]
  | redefineEmbeddedFunction => ["Cannot redefine embedded function '", .field "name", "'."]
  | typeMismatch =>
    ["Cannot use a value of type '", .field "provided", "' where '", .field "expected",
     "' is expected."]
  | operatorTypeMismatch =>
    ["The '", .field "op", "' operator cannot be used with '", .field "left_type", "' and '",
     .field "right_type", "'."]
  | logicalOperatorTypeMismatch =>
    ["The '", .field "op", "' operator can only be used with bool values, but got a '",
     .field "provided", "'."]
  | invalidNegate => ["Cannot negate a value of type '", .field "provided", "'."]
  | wrongArgumentCount =>
    ["Function '", .field "name", "' expects ", .field "expected", " argument(s), but got ",
     .field "provided", "."]
  | argumentTypeMismatch =>
    ["Argument ", .field "arg_num", " of '", .field "name", "' expects a '", .field "expected",
     "', but got a '", .field "provided", "'."]
  | invalidCast =>
    ["Cannot cast ", .field "value", " of type '", .field "provided", "' to '", .field "target",
     "'."]
  | invalidReturnType =>
    ["Invalid return type '", .field "provided", "', expected '", .field "expected", "'."]
  | missingReturn =>
    ["Function '", .field "name", "' must return a value of type '", .field "expected", "'."]
  | divisionByZero => ["Division by zero."]
  | nonBooleanCondition =>
    ["The condition of '", .field "construct", "' must be a bool, but got a '", .field "provided",
     "'."]
  | maxRecursionDepthExceeded =>
    ["Maximum recursion depth of ", .field "depth", " exceeded in function '", .field "name",
     "'."]
  | multipleDefaultCases => ["A switch statement can have at most one default case."]
  | unknownCaseShape => ["Invalid switch case: ", .field "details", "."]
  | embeddedFunctionFailed =>
    ["Embedded function '", .field "name", "' failed: ", .field "details"]
  | invalidFileExtension =>
    ["Source file '", .field "path", "' must have the '", .field "extension", "' extension."]

/-- Completes a template from details. The first field without a detail is an error. -/
def fillPieces (details : Details) : List Piece → Except String String
  | [] => .ok ""
  | .text text :: rest => do return text ++ (← fillPieces details rest)
  | .field name :: rest =>
    match details.lookup name with
    | none => .error name
    | some detail => do return detail ++ (← fillPieces details rest)

/-- The wording of an error with these details, or the name of the first detail that its template
needs and that is missing. Further details are ignored. -/
def fill (code : Code) (details : Details) : Except String String :=
  fillPieces details code.template

end Code

end FLang.Diagnostic
