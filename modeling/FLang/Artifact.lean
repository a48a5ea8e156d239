import FLang.Json
import FLang.Limits
import FLang.Tree
import FLang.Value

/-!
# Artifacts

What the stages of running a program produce, as JSON for other programs: tokens, trees and values.
Every field of a node is present, also those that hold nothing.
-/

namespace FLang

/-- A value as JSON. -/
def Value.toJson : Value → Json
  | .void => .null
  | .int value => .int value
  | .float value => .float value
  | .bool value => .bool value
  | .string value => .string value

/-- A constant as JSON. -/
def Literal.toJson (value : Literal) : Json :=
  (Value.ofLiteral value).toJson

/-- A position as JSON. -/
def Position.toJson (position : Position) : Json :=
  .object [("line", .int position.line), ("column", .int position.column)]

/-- Lexical capacities as JSON. -/
def Limits.toJson (limits : Limits) : Json :=
  .object [("identifier_limit", .int limits.identifierLimit),
    ("string_limit", .int limits.stringLimit), ("int_limit", .int limits.intLimit)]

/-- What a token carries beside its kind. -/
def Lexeme.payload : Lexeme → Value
  | .identifier name => .string name
  | .constant value => .ofLiteral value
  | .comment text => .string text
  | _ => .void

/-- A token as JSON. -/
def Token.toJson (token : Token) : Json :=
  .object [("type", .string token.lexeme.kind), ("position", token.position.toJson),
    ("value", token.lexeme.payload.toJson)]

namespace Artifact

/-- A node as JSON: its position, its kind and further fields. -/
def node (position : Position) (kind : String) (fields : List (String × Json)) : Json :=
  .object (("position", position.toJson) :: ("kind", .string kind) :: fields)

mutual

/-- An expression as JSON. -/
def expression : Expression → Json
  | .literal position value => node position value.kind [("value", value.toJson)]
  | .variable position name => node position "identifier" [("name", .string name)]
  | .negate position operand => node position "negate" [("operand", expression operand)]
  | .cast position operand target =>
    node position "cast" [("operand", expression operand), ("target_type", .string target.name)]
  | .binary position op left right =>
    node position "binary" [("operator", .string op.symbol), ("left", expression left),
      ("right", expression right)]
  | .call position name arguments =>
    node position "function_call" [("name", .string name),
      ("arguments", .array (expressions arguments))]

/-- Some expressions as JSON. -/
def expressions : List Expression → List Json
  | [] => []
  | first :: rest => expression first :: expressions rest

end

/-- An expression that may be absent, as JSON. -/
def optionalExpression : Option Expression → Json
  | none => .null
  | some e => expression e

/-- A declaration as JSON. -/
def declaration (d : Declaration) : Json :=
  node d.position "variable_declaration" [("name", .string d.name),
    ("declared_type", .string d.type.name), ("initializer", expression d.initializer)]

/-- The relation of a case as JSON. -/
def relation : Option Relation → Json
  | none => .null
  | some op => .string op.symbol

mutual

/-- A statement as JSON. -/
def statement : Statement → Json
  | .declaration d => declaration d
  | .assignment position name value =>
    node position "assignment" [("name", .string name), ("value", expression value)]
  | .conditional position condition thenBlock none =>
    node position "if_statement" [("condition", expression condition),
      ("then_block", block thenBlock), ("else_block", .null)]
  | .conditional position condition thenBlock (some elseBlock) =>
    node position "if_statement" [("condition", expression condition),
      ("then_block", block thenBlock), ("else_block", block elseBlock)]
  | .loop position condition body =>
    node position "while_statement" [("condition", expression condition), ("body", block body)]
  | .choice position guards subject list =>
    node position "switch_statement" [("variables", .array (guards.map declaration)),
      ("expression", optionalExpression subject), ("cases", .array (cases list))]
  | .giveBack position value =>
    node position "return_statement" [("value", optionalExpression value)]
  | .call position name arguments => expression (.call position name arguments)

/-- Some statements as JSON. -/
def statements : List Statement → List Json
  | [] => []
  | first :: rest => statement first :: statements rest

/-- A block as JSON. -/
def block : Block → Json
  | .mk position list => node position Block.kind [("statements", .array (statements list))]

/-- A case as JSON. -/
def case : Case → Json
  | .test position op value output =>
    node position "switch_case" [("relation", relation op), ("value", expression value),
      ("output", caseOutput output)]
  | .fallback position output => node position "default_case" [("output", caseOutput output)]

/-- Some cases as JSON. -/
def cases : List Case → List Json
  | [] => []
  | first :: rest => case first :: cases rest

/-- What a case does, as JSON. -/
def caseOutput : CaseOutput → Json
  | .expression value => expression value
  | .block body => block body

end

/-- A parameter as JSON. -/
def parameter (p : Parameter) : Json :=
  .object [("position", p.position.toJson), ("name", .string p.name),
    ("param_type", .string p.type.name)]

/-- A function as JSON. -/
def function (f : Function) : Json :=
  .object [("position", f.position.toJson), ("name", .string f.name),
    ("parameters", .array (f.parameters.map parameter)),
    ("return_type", .string f.returnType.name), ("body", block f.body)]

/-- A program as JSON. -/
def program (p : Program) : Json :=
  .object [("functions", .object (p.functions.map fun f => (f.name, function f)))]

end Artifact

end FLang
