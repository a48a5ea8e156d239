import FLang.Limits
import FLang.Machine
import FLang.Tree
import FLang.Value.Cast

/-!
# Running programs

The meaning of expressions and statements, by recursion on the tree. A call of a user's function
leaves the tree, so the evaluation of trees is given the meaning of calls, `Invoke`; `invoke` ties
the knot, one level of calls at a time. Its argument bounds the nesting of calls and the length of
loops; a program that ends does so with every bound that is large enough.

A statement that returns leaves its value in the machine; statements after it are skipped until the
call that it belongs to takes the value.
-/

namespace FLang

/-- What the evaluation of a program depends on. -/
structure Setting where
  /-- The functions of the program. -/
  program : Program
  /-- The embedded functions. -/
  registry : Registry
  /-- How often one function may be active at the same time. -/
  maxDepth : Nat

/-- A setting for a program, which must not define a function that is embedded. -/
def Setting.make (program : Program) (registry : Registry) (maxDepth : Nat) :
    Except Fault Setting :=
  match program.functions.find? fun function => registry.contains function.name with
  | some function =>
    .error (.semantic function.position (.redefineEmbeddedFunction function.name))
  | none => .ok { program, registry, maxDepth }

/-- The meaning of calls: a user's function applied to values, at the position of the call. -/
abbrev Invoke := Function → List Value → Position → Eval Value

namespace Evaluation

open Eval

/-- Checks the number of arguments of a call. -/
def checkCount (name : String) (expected provided : Nat) (position : Position) : Eval Unit :=
  if expected = provided then pure ()
  else raise position (.wrongArgumentCount name expected provided)

/-- Checks the type of an argument of a call. -/
def checkArgument (name : String) (index : Nat) (expected : ValueType) (value : Value)
    (position : Position) : Except Fault Unit :=
  if value.type = expected then .ok ()
  else .error (.semantic position (.argumentTypeMismatch index name (some expected) value.type))

/-! ### Embedded functions -/

/-- Checks the arguments of an embedded function, from the one of this index on. -/
def checkArguments (function : Embedded) (position : Position) :
    Nat → List Value → Except Fault Unit
  | _, [] => .ok ()
  | index, value :: rest => do
    if value.type = .void then
      .error (.semantic position (.argumentTypeMismatch index function.name none .void))
    else if !function.variadic then
      match function.parameters[index - 1]? with
      | none => .error .missingItem
      | some expected => checkArgument function.name index expected value position
    checkArguments function position (index + 1) rest

/-- Calls an embedded function. -/
def callEmbedded (function : Embedded) (arguments : List Value) (position : Position) :
    Eval Value := do
  ofExcept (checkArguments function position 1 arguments)
  let reply := function.behavior arguments
  emit reply.printed
  match reply.result with
  | .ok value => pure value
  | .error (.refused details) => raise position (.embeddedFunctionFailed function.name details)
  | .error (.escaped fault) => fail fault

/-! ### Expressions -/

/-- A call by name. The number of arguments is checked before they are evaluated. -/
def callNamed (setting : Setting) (invoke : Invoke) (position : Position) (name : String)
    (count : Nat) (arguments : Eval (List Value)) : Eval Value :=
  match setting.program.find? name with
  | some function => do
    checkCount name function.parameters.length count position
    let values ← arguments
    invoke function values position
  | none =>
    match setting.registry.find? name with
    | none => raise position (.undefinedFunction name)
    | some function => do
      match function.arity with
      | some arity => checkCount name arity count position
      | none => pure ()
      let values ← arguments
      callEmbedded function values position

/-- A truth value as an operand of a logical operator. -/
def logicalOperand (op : Logical) (position : Position) (value : Value) : Eval Bool :=
  match value with
  | .bool b => pure b
  | _ => raise position (.logicalOperatorTypeMismatch op value.type)

/-- A logical operation. The right operand is evaluated only if the left one does not decide. -/
def logical (op : Logical) (position : Position) (left right : Eval Value) : Eval Value := do
  let first ← logicalOperand op position (← left)
  match op, first with
  | .or, true => pure (.bool true)
  | .and, false => pure (.bool false)
  | _, _ => return .bool (← logicalOperand op position (← right))

mutual

/-- The value of an expression. -/
def evaluate (setting : Setting) (invoke : Invoke) : Expression → Eval Value
  | .literal _ value => pure (.ofLiteral value)
  | .variable position name => readVariable name position
  | .negate position operand => do
    let value ← evaluate setting invoke operand
    ofExcept (value.negate position)
  | .cast position operand target => do
    let value ← evaluate setting invoke operand
    ofExcept (value.cast target position)
  | .binary position (.logical op) left right =>
    logical op position (evaluate setting invoke left) (evaluate setting invoke right)
  | .binary position (.relation op) left right => do
    let a ← evaluate setting invoke left
    let b ← evaluate setting invoke right
    return .bool (← ofExcept (Value.relate op a b position))
  | .binary position (.arithmetic op) left right => do
    let a ← evaluate setting invoke left
    let b ← evaluate setting invoke right
    ofExcept (Value.calculate op a b position)
  | .call position name arguments =>
    callNamed setting invoke position name arguments.length
      (evaluateAll setting invoke arguments)

/-- The values of some expressions, in order. -/
def evaluateAll (setting : Setting) (invoke : Invoke) : List Expression → Eval (List Value)
  | [] => pure []
  | first :: rest => do
    let value ← evaluate setting invoke first
    let values ← evaluateAll setting invoke rest
    return value :: values

end

/-! ### Statements -/

/-- The truth value of a condition. -/
def condition (setting : Setting) (invoke : Invoke) (construct : String)
    (expression : Expression) : Eval Bool := do
  match ← evaluate setting invoke expression with
  | .bool b => pure b
  | value => raise expression.position (.nonBooleanCondition construct value.type)

/-- Declares a variable with its first value. -/
def declareVariable (setting : Setting) (invoke : Invoke) (d : Declaration) : Eval Unit := do
  let value ← evaluate setting invoke d.initializer
  declare d.name value d.type d.position

/-- Declares variables in order. -/
def declareVariables (setting : Setting) (invoke : Invoke) : List Declaration → Eval Unit
  | [] => pure ()
  | first :: rest => do
    declareVariable setting invoke first
    declareVariables setting invoke rest

/-- The value that the cases of a choice are compared with, if there is one. -/
def choiceSubject (setting : Setting) (invoke : Invoke) (guards : List Declaration)
    (subject : Option Expression) : Eval (Option Value) :=
  match subject, guards with
  | some expression, _ => some <$> evaluate setting invoke expression
  | none, [d] => some <$> readVariable d.name d.position
  | none, _ => pure none

/-- Whether the test of a case succeeds. -/
def testSucceeds (setting : Setting) (invoke : Invoke) (subject : Option Value)
    (position : Position) (relation : Option Relation) (value : Expression) : Eval Bool :=
  match relation, subject with
  | some op, none =>
    raise position (.unknownCaseShape
      ("a '" ++ op.symbol ++ "' case needs a single value to compare against"))
  | some op, some subject => do
    let compared ← evaluate setting invoke value
    ofExcept (Value.relate op subject compared position)
  | none, some subject => do
    let compared ← evaluate setting invoke value
    ofExcept (Value.relate .equal subject compared position)
  | none, none => condition setting invoke "switch case" value

/-- The positions of the fallback cases. -/
def fallbackPositions (cases : List Case) : List Position :=
  cases.filterMap fun
    | .fallback position _ => some position
    | .test .. => none

mutual

/-- Executes a statement. Loops run at most `bound` times. -/
def execute (setting : Setting) (invoke : Invoke) (bound : Nat) : Statement → Eval Unit
  | .declaration d => declareVariable setting invoke d
  | .assignment position name value => do
    let assigned ← evaluate setting invoke value
    assign name assigned position
  | .conditional _ test thenBlock none => do
    if ← condition setting invoke "if" test then executeBlock setting invoke bound thenBlock
    else pure ()
  | .conditional _ test thenBlock (some elseBlock) => do
    if ← condition setting invoke "if" test then executeBlock setting invoke bound thenBlock
    else executeBlock setting invoke bound elseBlock
  | .loop _ test (.mk _ statements) =>
    -- one scope for the whole loop: the body does not get a new one each time
    withScope none
      (iterate (condition setting invoke "while" test)
        (executeAll setting invoke bound statements) bound)
  | .choice _ guards subject cases =>
    match fallbackPositions cases with
    | _ :: second :: _ => raise second .multipleDefaultCases
    | _ =>
      withScope none do
        declareVariables setting invoke guards
        let value ← choiceSubject setting invoke guards subject
        if ← executeFirstMatch setting invoke bound value cases then pure ()
        else executeFallback setting invoke bound cases
  | .giveBack position none => giveBack .void position
  | .giveBack position (some expression) => do
    let value ← evaluate setting invoke expression
    giveBack value position
  | .call position name arguments => do
    let _ ← callNamed setting invoke position name arguments.length
      (evaluateAll setting invoke arguments)
    pure ()

/-- Executes a block in a scope of its own. -/
def executeBlock (setting : Setting) (invoke : Invoke) (bound : Nat) : Block → Eval Unit
  | .mk _ statements => withScope none (executeAll setting invoke bound statements)

/-- Executes statements in order until one of them returns. -/
def executeAll (setting : Setting) (invoke : Invoke) (bound : Nat) : List Statement → Eval Unit
  | [] => pure ()
  | first :: rest => do
    execute setting invoke bound first
    if ← isReturning then pure () else executeAll setting invoke bound rest

/-- Executes the output of the first case whose test succeeds; whether there is one. -/
def executeFirstMatch (setting : Setting) (invoke : Invoke) (bound : Nat)
    (subject : Option Value) : List Case → Eval Bool
  | [] => pure false
  | .fallback _ _ :: rest => executeFirstMatch setting invoke bound subject rest
  | .test position relation value output :: rest => do
    if ← testSucceeds setting invoke subject position relation value then
      executeOutput setting invoke bound output
      pure true
    else executeFirstMatch setting invoke bound subject rest

/-- Executes the output of the fallback case, if there is one. -/
def executeFallback (setting : Setting) (invoke : Invoke) (bound : Nat) : List Case → Eval Unit
  | [] => pure ()
  | .fallback _ output :: _ => executeOutput setting invoke bound output
  | .test .. :: rest => executeFallback setting invoke bound rest

/-- Executes the output of a case. An expression that has a value returns it. -/
def executeOutput (setting : Setting) (invoke : Invoke) (bound : Nat) : CaseOutput → Eval Unit
  | .block block => executeBlock setting invoke bound block
  | .expression expression => do
    let value ← evaluate setting invoke expression
    if value = .void then pure () else giveBack value expression.position

end

/-! ### Calls of a user's functions -/

/-- Declares the parameters of a function, from the one of this index on, with the values of its
arguments. -/
def bindParameters (name : String) (position : Position) :
    Nat → List Parameter → List Value → Eval Unit
  | index, parameter :: parameters, value :: values => do
    ofExcept (checkArgument name index parameter.type value position)
    declare parameter.name value parameter.type parameter.position
    bindParameters name position (index + 1) parameters values
  | _, _, _ => pure ()

/-- The value of a call, after the body of the function has been executed. -/
def finishCall (function : Function) : Eval Value := do
  if !(← isReturning) && function.returnType ≠ .void then
    raise function.position (.missingReturn function.name function.returnType)
  else takeReturned

/-- Calls a user's function. Calls are nested at most as deep as the bound says, and loops in them
are no longer. -/
def invoke (setting : Setting) : Nat → Invoke
  | 0 => fun _ _ _ => exhausted
  | bound + 1 => fun function arguments position => do
    let depth ← ask fun m => .ok (m.calls.depth function.name)
    if depth ≥ setting.maxDepth then
      raise position (.maxRecursionDepthExceeded setting.maxDepth function.name)
    else
      whileActive function.name do
        withScope (some function.returnType) do
          bindParameters function.name position 1 function.parameters arguments
          executeAll setting (invoke setting bound) bound function.body.statements
        finishCall function

end Evaluation

end FLang
