import FLang.Operator
import FLang.Position
import FLang.Token

/-!
# Syntax trees

The tree of a program. Every node carries the position of the token that introduces it: the name of
a declaration, a call or a variable, the operator of an operation, the keyword of a statement, the
brace of a block.
-/

namespace FLang

/-- An expression. -/
inductive Expression where
  | literal (position : Position) (value : Literal)
  | variable (position : Position) (name : String)
  /-- The negative of a number or the opposite of a truth value. -/
  | negate (position : Position) (operand : Expression)
  | cast (position : Position) (operand : Expression) (target : BasicType)
  | binary (position : Position) (op : BinaryOperator) (left right : Expression)
  | call (position : Position) (name : String) (arguments : List Expression)

/-- The declaration of a variable with its first value. -/
structure Declaration where
  position : Position
  name : String
  type : BasicType
  initializer : Expression

mutual

/-- A statement. -/
inductive Statement where
  | declaration (declared : Declaration)
  | assignment (position : Position) (name : String) (value : Expression)
  | conditional (position : Position) (condition : Expression) (thenBlock : Block)
      (elseBlock : Option Block)
  | loop (position : Position) (condition : Expression) (body : Block)
  /-- A choice between cases. The variables are declared for the cases; the value that cases are
  compared with is the subject, or a single variable. -/
  | choice (position : Position) (guards : List Declaration) (subject : Option Expression)
      (cases : List Case)
  | giveBack (position : Position) (value : Option Expression)
  | call (position : Position) (name : String) (arguments : List Expression)

/-- Statements in braces. -/
inductive Block where
  | mk (position : Position) (statements : List Statement)

/-- A case of a choice. -/
inductive Case where
  /-- A test against the value of the choice, by a relation or by equality; without such a value,
  a condition. -/
  | test (position : Position) (relation : Option Relation) (value : Expression)
      (output : CaseOutput)
  /-- What is done when no test succeeds. -/
  | fallback (position : Position) (output : CaseOutput)

/-- What a case does: gives back the value of an expression, or runs a block. -/
inductive CaseOutput where
  | expression (value : Expression)
  | block (block : Block)

end

/-- A parameter of a function. -/
structure Parameter where
  position : Position
  name : String
  type : BasicType
deriving DecidableEq, Repr

/-- The definition of a function. -/
structure Function where
  position : Position
  name : String
  parameters : List Parameter
  returnType : ValueType
  body : Block

/-- A program: functions of different names, in the order of their definitions. -/
structure Program where
  functions : List Function

/-- The position of an expression's introducing token. -/
def Expression.position : Expression → Position
  | .literal position _ | .variable position _ | .negate position _ | .cast position _ _
  | .binary position _ _ _ | .call position _ _ => position

/-- The position of a block's opening brace. -/
def Block.position : Block → Position
  | .mk position _ => position

/-- The statements of a block. -/
def Block.statements : Block → List Statement
  | .mk _ statements => statements

/-- The function of a name. -/
def Program.find? (program : Program) (name : String) : Option Function :=
  program.functions.find? fun function => function.name == name

/-- The position of a case. -/
def Case.position : Case → Position
  | .test position _ _ _ | .fallback position _ => position

/-- The kind of a literal, as the parts of a program are named to other programs. -/
def Literal.kind : Literal → String
  | .int _ => "int_literal"
  | .float _ => "float_literal"
  | .bool _ => "bool_literal"
  | .string _ => "string_literal"

/-- The kind of an expression. -/
def Expression.kind : Expression → String
  | .literal _ value => value.kind
  | .variable .. => "identifier"
  | .negate .. => "negate"
  | .cast .. => "cast"
  | .binary .. => "binary"
  | .call .. => "function_call"

/-- The kind of a statement. -/
def Statement.kind : Statement → String
  | .declaration _ => "variable_declaration"
  | .assignment .. => "assignment"
  | .conditional .. => "if_statement"
  | .loop .. => "while_statement"
  | .choice .. => "switch_statement"
  | .giveBack .. => "return_statement"
  | .call .. => "function_call"

/-- The kind of a block. -/
def Block.kind : String := "block"

/-- The kind of a case. -/
def Case.kind : Case → String
  | .test .. => "switch_case"
  | .fallback .. => "default_case"

/-- A part of a tree that can be looked at on its own. -/
inductive Node where
  | expression (e : Expression)
  | statement (s : Statement)
  | block (b : Block)

/-- The kind of a part of a tree. -/
def Node.kind : Node → String
  | .expression e => e.kind
  | .statement s => s.kind
  | .block _ => Block.kind

/-- The part of a statement under a field's name. -/
def Statement.part? (statement : Statement) (field : String) : Option Node :=
  match statement, field with
  | .declaration d, "initializer" => some (.expression d.initializer)
  | .assignment _ _ value, "value" => some (.expression value)
  | .conditional _ condition _ _, "condition" => some (.expression condition)
  | .conditional _ _ thenBlock _, "then_block" => some (.block thenBlock)
  | .loop _ condition _, "condition" => some (.expression condition)
  | .loop _ _ body, "body" => some (.block body)
  | .choice _ _ subject _, "expression" => subject.map .expression
  | .giveBack _ value, "value" => value.map .expression
  | _, _ => none

/-- The kinds of expressions. -/
def Expression.kinds : List String :=
  ["int_literal", "float_literal", "bool_literal", "string_literal", "identifier", "negate",
   "cast", "binary", "function_call"]

/-- The kinds of statements. -/
def Statement.kinds : List String :=
  ["variable_declaration", "assignment", "if_statement", "while_statement", "switch_statement",
   "return_statement", "function_call"]

/-- The kinds of what a case does. -/
def CaseOutput.kinds : List String :=
  Expression.kinds ++ [Block.kind]

/-- The kinds of cases. -/
def Case.kinds : List String := ["switch_case", "default_case"]

end FLang
