import FLang.Decimal.Layout
import FLang.Tree

/-!
# From trees to text

The canonical text of a program. Comments and layout are not kept: every operation and every cast
stands in parentheses, and blocks are indented by four spaces. Read again, the text gives the same
tree up to positions.

Only an integer of too many digits has no text.
-/

namespace FLang.Printer

/-- One level of indentation. -/
def indentation : String := "    "

/-- How a character of a string literal is written. -/
def escape : Char → List Char
  | '\n' => ['\\', 'n']
  | '\t' => ['\\', 't']
  | '"' => ['\\', '"']
  | '\\' => ['\\', '\\']
  | c => [c]

/-- A string literal of a text. -/
def stringLiteral (text : String) : String :=
  String.ofList ('"' :: text.toList.flatMap escape ++ ['"'])

/-- A float literal: positional notation, since literals have no exponent. -/
def floatLiteral (value : Float) : String :=
  Decimal.Layout.source.write value

/-- A constant. -/
def literal : Literal → Except Fault String
  | .int value =>
    match Decimal.intText? value with
    | some digits => .ok digits
    | none => .error (.tooManyDigits none)
  | .float value => .ok (floatLiteral value)
  | .bool value => .ok (if value then "true" else "false")
  | .string value => .ok (stringLiteral value)

/-- Texts with commas between them. -/
def commaSeparated (texts : List String) : String :=
  String.intercalate ", " texts

/-- Whether an expression is a negation; a sign applies to a single term, so that a negation below
another one needs parentheses. -/
def isNegation : Expression → Bool
  | .negate .. => true
  | _ => false

mutual

/-- The text of an expression. -/
def expression : Expression → Except Fault String
  | .literal _ value => literal value
  | .variable _ name => .ok name
  | .negate _ operand => do
    let text ← expression operand
    return if isNegation operand then "-(" ++ text ++ ")" else "-" ++ text
  | .cast _ operand target => do
    let text ← expression operand
    return "(" ++ text ++ " as " ++ target.name ++ ")"
  | .binary _ op left right => do
    let leftText ← expression left
    let rightText ← expression right
    return "(" ++ leftText ++ " " ++ op.symbol ++ " " ++ rightText ++ ")"
  | .call _ name arguments => do
    let texts ← expressions arguments
    return name ++ "(" ++ commaSeparated texts ++ ")"

/-- The texts of some expressions. -/
def expressions : List Expression → Except Fault (List String)
  | [] => .ok []
  | first :: rest => do
    let text ← expression first
    let texts ← expressions rest
    return text :: texts

end

/-- The text of a call. -/
def call (name : String) (arguments : List Expression) : Except Fault String := do
  return name ++ "(" ++ commaSeparated (← expressions arguments) ++ ")"

/-- The text of a declaration. -/
def declaration (d : Declaration) : Except Fault String := do
  return d.type.name ++ " " ++ d.name ++ " := " ++ (← expression d.initializer)

/-- The texts of some declarations. -/
def declarations : List Declaration → Except Fault (List String)
  | [] => .ok []
  | first :: rest => do
    let text ← declaration first
    let texts ← declarations rest
    return text :: texts

/-- Moves lines one level in. -/
def indent (lines : List String) : List String :=
  lines.map (indentation ++ ·)

/-- Lines in braces, after a header on the line of the opening one. -/
def braced (header : String) (lines : List String) : List String :=
  (header ++ "\x7b") :: lines ++ ["\x7d"]

/-- Puts a text at the end of the last line. -/
def extendLast (text : String) : List String → List String
  | [] => []
  | [last] => [last ++ text]
  | line :: rest => line :: extendLast text rest

/-- The head of a choice, before its cases. -/
def choiceHeader (guards : List Declaration) (subject : Option Expression) :
    Except Fault String := do
  if guards.isEmpty then
    match subject with
    | some value => return "switch " ++ (← expression value) ++ " "
    | none => return "switch "
  else return "switch " ++ commaSeparated (← declarations guards) ++ " "

/-- The test of a case. -/
def caseLabel (relation : Option Relation) (value : Expression) : Except Fault String := do
  let text ← expression value
  match relation with
  | some op => return op.symbol ++ " " ++ text
  | none => return text

mutual

/-- The lines of a statement. -/
def statement : Statement → Except Fault (List String)
  | .declaration d => do return [← declaration d]
  | .assignment _ name value => do return [name ++ " = " ++ (← expression value)]
  | .conditional _ condition thenBlock none => do
    let header := "if " ++ (← expression condition) ++ " "
    return braced header (← body thenBlock)
  | .conditional _ condition thenBlock (some elseBlock) => do
    let header := "if " ++ (← expression condition) ++ " "
    let thenLines ← body thenBlock
    let elseLines ← body elseBlock
    return (header ++ "\x7b") :: thenLines ++ braced "\x7d else " elseLines
  | .loop _ condition block => do
    let header := "while " ++ (← expression condition) ++ " "
    return braced header (← body block)
  | .choice _ guards subject choices => do
    return braced (← choiceHeader guards subject) (← cases choices)
  | .giveBack _ none => .ok ["return"]
  | .giveBack _ (some value) => do return ["return " ++ (← expression value)]
  | .call _ name arguments => do return [← call name arguments]

/-- The indented lines inside the braces of a block. -/
def body : Block → Except Fault (List String)
  | .mk _ list => do return indent (← statements list)

/-- The lines of some statements. -/
def statements : List Statement → Except Fault (List String)
  | [] => .ok []
  | first :: rest => do
    let lines ← statement first
    return lines ++ (← statements rest)

/-- The indented lines of some cases, with commas between them. -/
def cases : List Case → Except Fault (List String)
  | [] => .ok []
  | [last] => do return indent (← case last)
  | first :: second :: rest => do
    let lines ← case first
    return indent (extendLast "," lines) ++ (← cases (second :: rest))

/-- The lines of a case. -/
def case : Case → Except Fault (List String)
  | .test _ relation value output => do
    caseOutput ((← caseLabel relation value) ++ " => ") output
  | .fallback _ output => caseOutput "default => " output

/-- The lines of what a case does, after its label. -/
def caseOutput (label : String) : CaseOutput → Except Fault (List String)
  | .expression value => do return [label ++ (← expression value)]
  | .block block => do return braced label (← body block)

end

/-- The text of a parameter, and of every place that lists it. -/
def parameter (p : Parameter) : String :=
  p.name ++ " " ++ p.type.name

/-- The lines of a function. -/
def function (f : Function) : Except Fault (List String) := do
  let header := f.name ++ "(" ++ commaSeparated (f.parameters.map parameter) ++ ") "
  let result :=
    match f.returnType with
    | .void => ""
    | .basic type => type.name ++ " "
  return braced (header ++ result) (← body f.body)

/-- The texts of some functions. -/
def functions : List Function → Except Fault (List String)
  | [] => .ok []
  | first :: rest => do
    let lines ← function first
    let texts ← functions rest
    return String.intercalate "\n" lines :: texts

/-- The text of a program: its functions with an empty line between them. -/
def program (p : Program) : Except Fault String := do
  return String.intercalate "\n\n" (← functions p.functions) ++ "\n"

/-- The text of a part of a tree that is an expression. -/
def nodeExpression : Node → Except Fault String
  | .expression e => expression e
  | .statement (.call _ name arguments) => call name arguments
  | node => .error (.internal (.noPrinter node.kind))

/-- The lines of a part of a tree that is a statement. -/
def nodeStatement : Node → Except Fault (List String)
  | .statement s => statement s
  | .expression (.call _ name arguments) => do return [← call name arguments]
  | node => .error (.internal (.noPrinter node.kind))

end FLang.Printer
