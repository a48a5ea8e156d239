import FLang.Token.Reader
import FLang.Tree

/-!
# From tokens to trees

A recursive descent parser with one token of lookahead. A rule that cannot start at the current
token yields nothing and consumes nothing; once it has consumed a token, any deviation from the
grammar is an error at the token where it shows.

Every rule takes the rules for what is nested inside it as arguments. Tying the knot, `expression`
and `block` take a depth: what is nested deeper is refused. Operators of one level form a loop and
are not nesting.

The levels of expressions, loosest first: `or`, `and`, one relation, sums, products, one cast, one
sign, and terms.
-/

namespace FLang.Parser

open Parse

/-- A text in single quotes. -/
def quote (text : String) : String :=
  "'" ++ text ++ "'"

/-- A type name, if there is one. -/
def typeAnnotation : Parse (Option BasicType) := do
  match ← lexeme with
  | .typeName type =>
    advance
    return some type
  | _ => return none

/-! ### Expressions -/

/-- The arguments of a call of `name`, without the parentheses. -/
def argumentList (nested : Parse (Option Expression)) (name : String) :
    Parse (List Expression) := do
  match ← nested with
  | none => return []
  | some first =>
    let after := "',' in the call of " ++ quote name
    return first :: (← moreAfterCommas (require nested (.missingExpression after)))

/-- The arguments of a call of `name`, from its opening parenthesis to its closing one; nothing if
there is no parenthesis. -/
def callArguments (nested : Parse (Option Expression)) (name : String) :
    Parse (Option (List Expression)) := do
  if ← accept .leftParenthesis then
    let arguments ← argumentList nested name
    expect .rightParenthesis (.funcCallNotClosed name)
    return some arguments
  else return none

/-- A constant, a variable, a call or an expression in parentheses. -/
def term (nested : Parse (Option Expression)) : Parse (Option Expression) := do
  let here ← token
  match here.lexeme with
  | .constant value =>
    advance
    return some (.literal here.position value)
  | .identifier name =>
    advance
    match ← callArguments nested name with
    | none => return some (.variable here.position name)
    | some arguments => return some (.call here.position name arguments)
  | .punctuation .leftParenthesis =>
    advance
    let inner ← require nested (.missingExpression "'('")
    expect .rightParenthesis .noRightParenthesis
    return some inner
  | _ => return none

/-- Whether a lexeme is a sign: a minus or a negation. -/
def isSign (lexeme : Lexeme) : Bool :=
  lexeme = .operator (.arithmetic .subtract) || lexeme = .negation

/-- A term with at most one sign. -/
def unary (nested : Parse (Option Expression)) : Parse (Option Expression) := do
  let here ← token
  if isSign here.lexeme then
    advance
    let operand ← require (term nested) (.missingExpression (quote here.lexeme.kind))
    return some (.negate here.position operand)
  else term nested

/-- A signed term with at most one cast. -/
def casted (nested : Parse (Option Expression)) : Parse (Option Expression) := do
  match ← unary nested with
  | none => return none
  | some operand =>
    let here ← token
    if ← acceptKeyword .as then
      let target ← require typeAnnotation .noTypeInCast
      return some (.cast here.position operand target)
    else return some operand

/-- Further operands of a left associative level, at most `fuel` of them. -/
def chainFrom (operatorOf : Lexeme → Option BinaryOperator) (operand : Parse (Option Expression)) :
    Nat → Expression → Parse Expression
  | 0, left => return left
  | fuel + 1, left => do
    let here ← token
    match operatorOf here.lexeme with
    | none => return left
    | some op =>
      advance
      let right ← require operand (.missingExpression (quote op.symbol))
      chainFrom operatorOf operand fuel (.binary here.position op left right)

/-- A left associative level: operands joined by its operators. -/
def chain (operatorOf : Lexeme → Option BinaryOperator) (operand : Parse (Option Expression)) :
    Parse (Option Expression) := do
  match ← operand with
  | none => return none
  | some left => return some (← chainFrom operatorOf operand (← budget) left)

/-- The operators of products. -/
def productOperator : Lexeme → Option BinaryOperator
  | .operator (.arithmetic .multiply) => some (.arithmetic .multiply)
  | .operator (.arithmetic .divide) => some (.arithmetic .divide)
  | _ => none

/-- The operators of sums. -/
def sumOperator : Lexeme → Option BinaryOperator
  | .operator (.arithmetic .sum) => some (.arithmetic .sum)
  | .operator (.arithmetic .subtract) => some (.arithmetic .subtract)
  | _ => none

/-- The relations. -/
def relationOperator : Lexeme → Option Relation
  | .operator (.relation op) => some op
  | _ => none

/-- The operator of conjunctions. -/
def andOperator : Lexeme → Option BinaryOperator
  | .operator (.logical .and) => some (.logical .and)
  | _ => none

/-- The operator of disjunctions. -/
def orOperator : Lexeme → Option BinaryOperator
  | .operator (.logical .or) => some (.logical .or)
  | _ => none

/-- Products and quotients. -/
def multiplicative (nested : Parse (Option Expression)) : Parse (Option Expression) :=
  chain productOperator (casted nested)

/-- Sums and differences. -/
def additive (nested : Parse (Option Expression)) : Parse (Option Expression) :=
  chain sumOperator (multiplicative nested)

/-- At most one comparison: relations do not chain. -/
def relation (nested : Parse (Option Expression)) : Parse (Option Expression) := do
  match ← additive nested with
  | none => return none
  | some left =>
    let here ← token
    match relationOperator here.lexeme with
    | none => return some left
    | some op =>
      advance
      let right ← require (additive nested) (.missingExpression (quote op.symbol))
      return some (.binary here.position (.relation op) left right)

/-- Conjunctions. -/
def conjunction (nested : Parse (Option Expression)) : Parse (Option Expression) :=
  chain andOperator (relation nested)

/-- Disjunctions, the loosest level. -/
def disjunction (nested : Parse (Option Expression)) : Parse (Option Expression) :=
  chain orOperator (conjunction nested)

/-- Whether a lexeme starts a term. -/
def startsTerm : Lexeme → Bool
  | .constant _ | .identifier _ | .punctuation .leftParenthesis => true
  | _ => false

/-- Whether a lexeme starts an expression. -/
def startsExpression (lexeme : Lexeme) : Bool :=
  isSign lexeme || startsTerm lexeme

/-- An expression of bounded nesting. -/
def expression : Nat → Parse (Option Expression)
  | 0 => do if startsExpression (← lexeme) then fail .nestingTooDeep else return none
  | depth + 1 => disjunction (expression depth)

/-! ### Statements -/

/-- The rules for what a statement contains. -/
structure Nested where
  /-- Expressions inside the statement. -/
  expression : Parse (Option Expression)
  /-- Blocks inside the statement. -/
  block : Parse (Option Block)

/-- An expression that has to follow something. -/
def Nested.requireExpression (nested : Nested) (after : String) : Parse Expression :=
  require nested.expression (.missingExpression after)

/-- A block that has to be there. -/
def Nested.requireBlock (nested : Nested) : Parse Block :=
  require nested.block .noBlock

/-- The declaration of a variable. -/
def declaration (nested : Nested) : Parse (Option Declaration) := do
  match ← typeAnnotation with
  | none => return none
  | some type =>
    let (position, name) ← expectIdentifier .noVariableIdentifier
    expect .declare (.missingDeclare name)
    let initializer ←
      nested.requireExpression ("':=' in the declaration of " ++ quote name)
    return some { position, name, type, initializer }

/-- What follows a name at the start of a statement: an assignment to it or a call of it. -/
def assignmentOrCall (nested : Nested) (position : Position) (name : String) :
    Parse Statement := do
  match ← callArguments nested.expression name with
  | some arguments =>
    if (← lexeme) = .punctuation .assign then fail (.assignmentToFunctionCall name)
    else return .call position name arguments
  | none =>
    if ← accept .assign then
      let value ← nested.requireExpression ("'=' in the assignment to " ++ quote name)
      return .assignment position name value
    else fail (.expectedAssignment name)

/-- A conditional, after its keyword. -/
def conditional (nested : Nested) (position : Position) : Parse Statement := do
  let condition ← nested.requireExpression "'if'"
  let thenBlock ← nested.requireBlock
  if ← acceptKeyword .else then
    let elseBlock ← nested.requireBlock
    return .conditional position condition thenBlock (some elseBlock)
  else return .conditional position condition thenBlock none

/-- A loop, after its keyword. -/
def loop (nested : Nested) (position : Position) : Parse Statement := do
  let condition ← nested.requireExpression "'while'"
  let body ← nested.requireBlock
  return .loop position condition body

/-- A return, after its keyword. A value has to start on the same line. -/
def giveBack (nested : Nested) (position : Position) : Parse Statement := do
  if ← newlineBefore then return .giveBack position none
  else return .giveBack position (← nested.expression)

/-- The output of a case: a block or an expression. -/
def caseOutput (nested : Nested) : Parse CaseOutput := do
  match ← nested.block with
  | some block => return .block block
  | none => return .expression (← nested.requireExpression "'=>'")

/-- The test of a case: a relation and an expression, or an expression alone. -/
def caseTest (nested : Nested) : Parse (Option (Option Relation × Expression)) := do
  match relationOperator (← lexeme) with
  | some op =>
    advance
    let value ← nested.requireExpression (quote op.symbol ++ " in a switch case")
    return some (some op, value)
  | none => return (← nested.expression).map fun value => (none, value)

/-- A case of a choice. -/
def switchCase (nested : Nested) : Parse (Option Case) := do
  let here ← token
  if ← acceptKeyword .default then
    expect .arrow .noArrow
    return some (.fallback here.position (← caseOutput nested))
  else
    match ← caseTest nested with
    | none => return none
    | some (relation, value) =>
      expect .arrow .noArrow
      return some (.test here.position relation value (← caseOutput nested))

/-- What stands before the cases of a choice: declarations, or a subject if there is one. -/
def choiceHead (nested : Nested) : Parse (List Declaration × Option Expression) := do
  match ← declaration nested with
  | some first =>
    return (first :: (← moreAfterCommas (require (declaration nested) .badSwitchDeclaration)), none)
  | none => return ([], ← nested.expression)

/-- The cases of a choice in their braces. -/
def choiceCases (nested : Nested) : Parse (List Case) := do
  expect .leftBrace .noLeftBraceInSwitch
  let first ← require (switchCase nested) .noSwitchCases
  let more ← moreAfterCommas (require (switchCase nested) .missingSwitchCase)
  expect .rightBrace .switchNotClosed
  return first :: more

/-- A choice, after its keyword. -/
def choice (nested : Nested) (position : Position) : Parse Statement := do
  let (guards, subject) ← choiceHead nested
  return .choice position guards subject (← choiceCases nested)

/-- A statement. -/
def statement (nested : Nested) : Parse (Option Statement) := do
  let here ← token
  match here.lexeme with
  | .typeName _ => return (← declaration nested).map .declaration
  | .identifier name =>
    advance
    return some (← assignmentOrCall nested here.position name)
  | .keyword .if =>
    advance
    return some (← conditional nested here.position)
  | .keyword .while =>
    advance
    return some (← loop nested here.position)
  | .keyword .switch =>
    advance
    return some (← choice nested here.position)
  | .keyword .return =>
    advance
    return some (← giveBack nested here.position)
  | _ => return none

/-- The statements of a block up to its closing brace, which is consumed. -/
def statements (nested : Nested) : Nat → Parse (List Statement)
  | 0 => fail .expectedRightBrace
  | fuel + 1 => do
    if ← accept .rightBrace then return []
    else if (← lexeme) = .endOfInput then fail .expectedRightBrace
    else
      match ← statement nested with
      | some first => return first :: (← statements nested fuel)
      | none => fail (.unknownStatement (← (← lexeme).describe))

/-- Statements in braces. -/
def blockOf (nested : Nested) : Parse (Option Block) := do
  let here ← token
  if ← accept .leftBrace then
    return some (.mk here.position (← statements nested ((← budget) + 1)))
  else return none

/-- A block of bounded nesting. -/
def block : Nat → Parse (Option Block)
  | 0 => do
    if (← lexeme) = .punctuation .leftBrace then fail .nestingTooDeep else return none
  | depth + 1 => blockOf ⟨expression depth, block depth⟩

/-- The rules for what is nested up to a depth. -/
def nestedUpTo (depth : Nat) : Nested :=
  ⟨expression depth, block depth⟩

/-- The rules for what stands directly in a function. -/
def topLevel (nesting : Nat := nestingLimit) : Nested :=
  nestedUpTo nesting

/-! ### Functions and programs -/

/-- Names that share the type after them. -/
def parameterGroup : Parse (Option (List Parameter)) := do
  let here ← token
  match here.lexeme with
  | .identifier name =>
    advance
    let more ← moreAfterCommas (expectIdentifier .noIdentifier)
    let type ← require typeAnnotation .noType
    return some (((here.position, name) :: more).map fun (position, name) =>
      { position, name, type })
  | _ => return none

/-- The parameters of a function, without the parentheses. -/
def parameters : Parse (List Parameter) := do
  match ← parameterGroup with
  | none => return []
  | some first =>
    let more ← moreAfterCommas (require parameterGroup .noParametersAfterComma)
    return first ++ more.flatten

/-- The definition of a function. -/
def functionOf (nested : Nested) : Parse (Option Function) := do
  let here ← token
  match here.lexeme with
  | .identifier name =>
    advance
    expect .leftParenthesis (.funcDefNoParenthesis "(" name)
    let parameters ← parameters
    expect .rightParenthesis (.funcDefNoParenthesis ")" name)
    let returnType := ((← typeAnnotation).map ValueType.basic).getD .void
    let body ← nested.requireBlock
    return some { position := here.position, name, parameters, returnType, body }
  | _ => return none

/-- The definition of a function of a program. -/
def function (nesting : Nat := nestingLimit) : Parse (Option Function) :=
  functionOf (topLevel nesting)

/-- Further functions after those already defined, at most `fuel` of them. -/
def functions (nested : Nested) : Nat → Program → Parse Program
  | 0, defined => return defined
  | fuel + 1, defined => do
    match ← functionOf nested with
    | none => return defined
    | some next =>
      match defined.find? next.name with
      | some earlier =>
        failAt next.position (.functionRedefinition next.name earlier.position)
      | none => functions nested fuel ⟨defined.functions ++ [next]⟩

/-- Functions of different names up to the end of the input. -/
def programOf (nested : Nested) : Parse Program := do
  let found ← functions nested (← budget) ⟨[]⟩
  let lexeme ← lexeme
  if lexeme = .endOfInput then return found
  else fail (.noEtxToken (← lexeme.describe))

/-- A program of bounded nesting. -/
def program (nesting : Nat) : Parse Program :=
  programOf (topLevel nesting)

end FLang.Parser

namespace FLang

/-- The program that a stream of tokens denotes, nested no deeper than this. -/
def parseTokens (nesting : Nat) (stream : TokenStream) : Except Fault Program :=
  ((Parser.program nesting).onStream stream).map Prod.fst

/-- The program that a source text denotes, or the first error in it. -/
def parse (limits : Limits) (source : String) : Except Fault Program :=
  parseTokens limits.nestingLimit (tokenStream limits source)

end FLang
