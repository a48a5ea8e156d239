import FLang.Proofs.Runs.Balance

/-!
# Statements that end in three ways

The evaluator leaves the value of a `return` in the machine and skips what follows until a call
takes the value. Here is the meaning that this stands for, by rules, without a value on its way and
without a bound on loops and calls: a statement ends normally, or it returns a value, or it fails.
What follows is executed only after a normal end.

* `Completion` — how a statement ends;
* `Store` — what a running program has, apart from a value on its way;
* `Evaluates`, `Calls`, `Executes` — the rules. A call takes the value that its body returns
  (`Completion.result`), so an expression ends with a value or fails.

That the evaluator follows the rules is shown in `Soundness` and `Completeness`.
-/

namespace FLang

open Evaluation

/-! ## Stores and completions -/

/-- How a statement ends. -/
inductive Completion where
  /-- What follows is executed. -/
  | normal
  /-- The call that the statement belongs to ends with a value. -/
  | returned (value : Value)
  | failed (fault : Fault)

/-- The end of something that does not return. -/
def Completion.ofExcept {α : Type} : Except Fault α → Completion
  | .ok _ => .normal
  | .error fault => .failed fault

/-- What a call makes of the end of its body. -/
def Completion.result (function : Function) : Completion → Except Fault Value
  | .returned value => .ok value
  | .normal =>
    if function.returnType = .void then .ok .void
    else .error (.semantic function.position (.missingReturn function.name function.returnType))
  | .failed fault => .error fault

/-- What a running program has, apart from a value on its way. -/
structure Store where
  /-- The open scopes. -/
  arena : Arena
  /-- The index of the current scope; none outside of every call. -/
  scope : Option Nat
  /-- The active calls. -/
  calls : CallStack
  /-- Everything that was printed. -/
  output : String

namespace Store

/-- A store in a new scope inside its current one. -/
def enter (σ : Store) (returnType : Option ValueType) : Store :=
  { σ with arena := σ.arena.openScope σ.scope returnType, scope := some σ.arena.size }

/-- A store after closing every scope that was opened since an earlier one. -/
def leave (σ outer : Store) : Store :=
  { σ with arena := ⟨σ.arena.scopes.take outer.arena.size⟩, scope := outer.scope }

/-- A call becomes active. -/
def activate (σ : Store) (name : String) : Store :=
  { σ with calls := σ.calls.push name }

/-- A call ends. -/
def deactivate (σ : Store) (name : String) : Store :=
  { σ with calls := σ.calls.pop name }

def print (σ : Store) (text : String) : Store :=
  { σ with output := σ.output ++ text }

/-- Changes the open scopes, or fails and changes nothing. -/
def update (σ : Store) (f : Arena → Option Nat → Except Fault Arena) : Except Fault Unit × Store :=
  match f σ.arena σ.scope with
  | .ok arena => (.ok (), { σ with arena })
  | .error fault => (.error fault, σ)

def declare (σ : Store) (name : String) (value : Value) (type : ValueType) (position : Position) :
    Except Fault Unit × Store :=
  σ.update fun arena scope => arena.declare scope name value type position

def assign (σ : Store) (name : String) (value : Value) (position : Position) :
    Except Fault Unit × Store :=
  σ.update fun arena scope => arena.assign scope name value position

/-- Declares the parameters of a function, from the one of this index on, until one fails. -/
def bindParameters (name : String) (position : Position) :
    Nat → List Parameter → List Value → Store → Except Fault Unit × Store
  | index, parameter :: parameters, value :: values, σ =>
    match checkArgument name index parameter.type value position with
    | .error fault => (.error fault, σ)
    | .ok () =>
      match σ.declare parameter.name value parameter.type parameter.position with
      | (.error fault, σ') => (.error fault, σ')
      | (.ok (), σ') => bindParameters name position (index + 1) parameters values σ'
  | _, _, _, σ => (.ok (), σ)

/-- A value is returned if it has the type that the call returns. -/
def returning (σ : Store) (value : Value) (position : Position) : Completion :=
  match σ.arena.returnTypeOf σ.scope with
  | .error fault => .failed fault
  | .ok expected =>
    if value.type = expected then .returned value
    else .failed (.semantic position (.invalidReturnType value.type expected))

end Store

/-- What an embedded function answers, and what it prints. -/
def Embedded.answer (function : Embedded) (values : List Value) (position : Position) :
    Except Fault Value × String :=
  match checkArguments function position 1 values with
  | .error fault => (.error fault, "")
  | .ok () =>
    match function.behavior values with
    | ⟨printed, .ok value⟩ => (.ok value, printed)
    | ⟨printed, .error (.refused details)⟩ =>
      (.error (.semantic position (.embeddedFunctionFailed function.name details)), printed)
    | ⟨printed, .error (.escaped fault)⟩ => (.error fault, printed)

/-! ## The rules -/

mutual

/-- An expression ends with a value or fails. -/
inductive Evaluates (setting : Setting) : Expression → Store → Except Fault Value → Store → Prop
  | literal {position value σ} :
    Evaluates setting (.literal position value) σ (.ok (.ofLiteral value)) σ
  | variable {position name σ} :
    Evaluates setting (.variable position name) σ (σ.arena.valueOf σ.scope name position) σ
  | negate {position operand σ r σ'} : Evaluates setting operand σ r σ' →
    Evaluates setting (.negate position operand) σ (r.bind fun a => a.negate position) σ'
  | cast {position operand target σ r σ'} : Evaluates setting operand σ r σ' →
    Evaluates setting (.cast position operand target) σ (r.bind fun a => a.cast target position) σ'
  -- the left operand comes first, whatever the operator
  | leftFault {position op left right σ fault σ'} : Evaluates setting left σ (.error fault) σ' →
    Evaluates setting (.binary position op left right) σ (.error fault) σ'
  | relation {position op left right σ a σ₁ r σ₂} :
    Evaluates setting left σ (.ok a) σ₁ → Evaluates setting right σ₁ r σ₂ →
    Evaluates setting (.binary position (.relation op) left right) σ
      (r.bind fun b => (Value.relate op a b position).map .bool) σ₂
  | arithmetic {position op left right σ a σ₁ r σ₂} :
    Evaluates setting left σ (.ok a) σ₁ → Evaluates setting right σ₁ r σ₂ →
    Evaluates setting (.binary position (.arithmetic op) left right) σ
      (r.bind fun b => Value.calculate op a b position) σ₂
  -- the right operand of a logical operator is left alone if the left one decides
  | operandFault {position op left right σ a σ₁ fault} :
    Evaluates setting left σ (.ok a) σ₁ → op.operand position a = .error fault →
    Evaluates setting (.binary position (.logical op) left right) σ (.error fault) σ₁
  | decided {position op left right σ σ₁} :
    Evaluates setting left σ (.ok (.bool op.decisive)) σ₁ →
    Evaluates setting (.binary position (.logical op) left right) σ (.ok (.bool op.decisive)) σ₁
  | undecided {position op left right σ σ₁ r σ₂} :
    Evaluates setting left σ (.ok (.bool !op.decisive)) σ₁ → Evaluates setting right σ₁ r σ₂ →
    Evaluates setting (.binary position (.logical op) left right) σ
      (r.bind fun b => (op.operand position b).map .bool) σ₂
  -- what a name stands for is known before its arguments are evaluated
  | unknown {position name es σ fault} :
    setting.callee position name es.length = .error fault →
    Evaluates setting (.call position name es) σ (.error fault) σ
  | argumentFault {position name es σ callee fault σ'} :
    setting.callee position name es.length = .ok callee →
    EvaluatesAll setting es σ (.error fault) σ' →
    Evaluates setting (.call position name es) σ (.error fault) σ'
  | embedded {position name es σ function values σ'} :
    setting.callee position name es.length = .ok (.embedded function) →
    EvaluatesAll setting es σ (.ok values) σ' →
    Evaluates setting (.call position name es) σ (function.answer values position).1
      (σ'.print (function.answer values position).2)
  | declared {position name es σ function values σ₁ r σ₂} :
    setting.callee position name es.length = .ok (.declared function) →
    EvaluatesAll setting es σ (.ok values) σ₁ →
    Calls setting function values position σ₁ r σ₂ →
    Evaluates setting (.call position name es) σ r σ₂

/-- Expressions are evaluated in order, until one fails. -/
inductive EvaluatesAll (setting : Setting) :
    List Expression → Store → Except Fault (List Value) → Store → Prop
  | nil {σ} : EvaluatesAll setting [] σ (.ok []) σ
  | firstFault {e es σ fault σ'} : Evaluates setting e σ (.error fault) σ' →
    EvaluatesAll setting (e :: es) σ (.error fault) σ'
  | cons {e es σ a σ₁ r σ₂} : Evaluates setting e σ (.ok a) σ₁ → EvaluatesAll setting es σ₁ r σ₂ →
    EvaluatesAll setting (e :: es) σ (r.map (a :: ·)) σ₂

/-- A call takes the value that its body returns. -/
inductive Calls (setting : Setting) :
    Function → List Value → Position → Store → Except Fault Value → Store → Prop
  | refused {function values position σ} : setting.maxDepth ≤ σ.calls.depth function.name →
    Calls setting function values position σ
      (.error (.semantic position (.maxRecursionDepthExceeded setting.maxDepth function.name))) σ
  -- the scope of a call is left and the call ends, also if it fails
  | badArgument {function values position σ fault σ₁} :
    σ.calls.depth function.name < setting.maxDepth →
    ((σ.activate function.name).enter (some function.returnType)).bindParameters function.name
      position 1 function.parameters values = (.error fault, σ₁) →
    Calls setting function values position σ (.error fault)
      ((σ₁.leave (σ.activate function.name)).deactivate function.name)
  | completed {function values position σ σ₁ c σ₂} :
    σ.calls.depth function.name < setting.maxDepth →
    ((σ.activate function.name).enter (some function.returnType)).bindParameters function.name
      position 1 function.parameters values = (.ok (), σ₁) →
    ExecutesAll setting function.body.statements σ₁ c σ₂ →
    Calls setting function values position σ (c.result function)
      ((σ₂.leave (σ.activate function.name)).deactivate function.name)

/-- A statement ends normally, returns or fails. -/
inductive Executes (setting : Setting) : Statement → Store → Completion → Store → Prop
  | initializerFault {d σ fault σ'} : Evaluates setting d.initializer σ (.error fault) σ' →
    Executes setting (.declaration d) σ (.failed fault) σ'
  | declaration {d σ a σ'} : Evaluates setting d.initializer σ (.ok a) σ' →
    Executes setting (.declaration d) σ (.ofExcept (σ'.declare d.name a d.type d.position).1)
      (σ'.declare d.name a d.type d.position).2
  | valueFault {position name e σ fault σ'} : Evaluates setting e σ (.error fault) σ' →
    Executes setting (.assignment position name e) σ (.failed fault) σ'
  | assignment {position name e σ a σ'} : Evaluates setting e σ (.ok a) σ' →
    Executes setting (.assignment position name e) σ (.ofExcept (σ'.assign name a position).1)
      (σ'.assign name a position).2
  | conditionFault {position test thenBlock elseBlock σ r σ' fault} :
    Evaluates setting test σ r σ' → r.bind (Value.truth "if" test.position) = .error fault →
    Executes setting (.conditional position test thenBlock elseBlock) σ (.failed fault) σ'
  | thenBlock {position test thenBlock elseBlock σ σ₁ c σ₂} :
    Evaluates setting test σ (.ok (.bool true)) σ₁ → ExecutesBlock setting thenBlock σ₁ c σ₂ →
    Executes setting (.conditional position test thenBlock elseBlock) σ c σ₂
  | elseBlock {position test thenBlock elseBlock σ σ₁ c σ₂} :
    Evaluates setting test σ (.ok (.bool false)) σ₁ → ExecutesBlock setting elseBlock σ₁ c σ₂ →
    Executes setting (.conditional position test thenBlock (some elseBlock)) σ c σ₂
  | noElse {position test thenBlock σ σ'} : Evaluates setting test σ (.ok (.bool false)) σ' →
    Executes setting (.conditional position test thenBlock none) σ .normal σ'
  -- all turns of a loop share one scope
  | loop {position test place body σ c σ'} : Repeats setting test body (σ.enter none) c σ' →
    Executes setting (.loop position test (.mk place body)) σ c (σ'.leave σ)
  -- a second fallback case is noticed before anything is evaluated
  | secondFallback {position guards subject arms σ first second rest} :
    fallbackPositions arms = first :: second :: rest →
    Executes setting (.choice position guards subject arms) σ
      (.failed (.semantic second .multipleDefaultCases)) σ
  | choice {position guards subject arms σ c σ'} : (fallbackPositions arms).length ≤ 1 →
    Chooses setting guards subject arms (σ.enter none) c σ' →
    Executes setting (.choice position guards subject arms) σ c (σ'.leave σ)
  | giveBackNone {position σ} :
    Executes setting (.giveBack position none) σ (σ.returning .void position) σ
  | giveBackFault {position e σ fault σ'} : Evaluates setting e σ (.error fault) σ' →
    Executes setting (.giveBack position (some e)) σ (.failed fault) σ'
  | giveBack {position e σ a σ'} : Evaluates setting e σ (.ok a) σ' →
    Executes setting (.giveBack position (some e)) σ (σ'.returning a position) σ'
  | call {position name es σ r σ'} : Evaluates setting (.call position name es) σ r σ' →
    Executes setting (.call position name es) σ (.ofExcept r) σ'

/-- A block has a scope of its own. -/
inductive ExecutesBlock (setting : Setting) : Block → Store → Completion → Store → Prop
  | block {position ss σ c σ'} : ExecutesAll setting ss (σ.enter none) c σ' →
    ExecutesBlock setting (.mk position ss) σ c (σ'.leave σ)

/-- Statements are executed in order, until one does not end normally. -/
inductive ExecutesAll (setting : Setting) : List Statement → Store → Completion → Store → Prop
  | nil {σ} : ExecutesAll setting [] σ .normal σ
  | next {s ss σ σ₁ c σ₂} : Executes setting s σ .normal σ₁ → ExecutesAll setting ss σ₁ c σ₂ →
    ExecutesAll setting (s :: ss) σ c σ₂
  | stop {s ss σ c σ'} : Executes setting s σ c σ' → c ≠ .normal →
    ExecutesAll setting (s :: ss) σ c σ'

/-- A loop goes on until its condition fails to hold or its body does not end normally. -/
inductive Repeats (setting : Setting) :
    Expression → List Statement → Store → Completion → Store → Prop
  | fault {test body σ r σ' fault} :
    Evaluates setting test σ r σ' → r.bind (Value.truth "while" test.position) = .error fault →
    Repeats setting test body σ (.failed fault) σ'
  | done {test body σ σ'} : Evaluates setting test σ (.ok (.bool false)) σ' →
    Repeats setting test body σ .normal σ'
  | again {test body σ σ₁ σ₂ c σ₃} : Evaluates setting test σ (.ok (.bool true)) σ₁ →
    ExecutesAll setting body σ₁ .normal σ₂ → Repeats setting test body σ₂ c σ₃ →
    Repeats setting test body σ c σ₃
  | stop {test body σ σ₁ c σ₂} : Evaluates setting test σ (.ok (.bool true)) σ₁ →
    ExecutesAll setting body σ₁ c σ₂ → c ≠ .normal → Repeats setting test body σ c σ₂

/-- A choice declares its variables, finds the case that applies and does what that says. -/
inductive Chooses (setting : Setting) : List Declaration → Option Expression → List Case →
    Store → Completion → Store → Prop
  | guardFault {guards subject arms σ fault σ'} :
    ExecutesAll setting (guards.map .declaration) σ (.failed fault) σ' →
    Chooses setting guards subject arms σ (.failed fault) σ'
  | subjectFault {guards subject arms σ σ₁ e fault σ₂} :
    ExecutesAll setting (guards.map .declaration) σ .normal σ₁ →
    choiceExpression guards subject = some e → Evaluates setting e σ₁ (.error fault) σ₂ →
    Chooses setting guards subject arms σ (.failed fault) σ₂
  | compared {guards subject arms σ σ₁ e a σ₂ c σ₃} :
    ExecutesAll setting (guards.map .declaration) σ .normal σ₁ →
    choiceExpression guards subject = some e → Evaluates setting e σ₁ (.ok a) σ₂ →
    Selects setting arms (some a) arms σ₂ c σ₃ →
    Chooses setting guards subject arms σ c σ₃
  | tested {guards subject arms σ σ₁ c σ₂} :
    ExecutesAll setting (guards.map .declaration) σ .normal σ₁ →
    choiceExpression guards subject = none → Selects setting arms none arms σ₁ c σ₂ →
    Chooses setting guards subject arms σ c σ₂

/-- The first case that applies is looked for in some of the cases; the fallback case is any of
all. -/
inductive Selects (setting : Setting) : List Case → Option Value → List Case →
    Store → Completion → Store → Prop
  | fallback {all subject output σ c σ'} : fallbackOutput all = some output →
    Produces setting output σ c σ' → Selects setting all subject [] σ c σ'
  | nothing {all subject σ} : fallbackOutput all = none → Selects setting all subject [] σ .normal σ
  | skipped {all subject position output arms σ c σ'} : Selects setting all subject arms σ c σ' →
    Selects setting all subject (.fallback position output :: arms) σ c σ'
  -- a relation needs a value to compare with, and asks for it before its test is evaluated
  | noSubject {all position op e output arms σ} :
    Selects setting all none (.test position (some op) e output :: arms) σ
      (.failed (.semantic position (.unknownCaseShape
        ("a '" ++ op.symbol ++ "' case needs a single value to compare against")))) σ
  | testFault {all subject position relation e output arms σ r σ' fault} :
    (relation.isSome → subject.isSome) → Evaluates setting e σ r σ' →
    r.bind (caseApplies subject relation position e) = .error fault →
    Selects setting all subject (.test position relation e output :: arms) σ (.failed fault) σ'
  | applies {all subject position relation e output arms σ r σ₁ c σ₂} :
    (relation.isSome → subject.isSome) → Evaluates setting e σ r σ₁ →
    r.bind (caseApplies subject relation position e) = .ok true →
    Produces setting output σ₁ c σ₂ →
    Selects setting all subject (.test position relation e output :: arms) σ c σ₂
  | next {all subject position relation e output arms σ r σ₁ c σ₂} :
    (relation.isSome → subject.isSome) → Evaluates setting e σ r σ₁ →
    r.bind (caseApplies subject relation position e) = .ok false →
    Selects setting all subject arms σ₁ c σ₂ →
    Selects setting all subject (.test position relation e output :: arms) σ c σ₂

/-- A case executes a block, or it returns the value of an expression that has one. -/
inductive Produces (setting : Setting) : CaseOutput → Store → Completion → Store → Prop
  | block {b σ c σ'} : ExecutesBlock setting b σ c σ' → Produces setting (.block b) σ c σ'
  | fault {e σ fault σ'} : Evaluates setting e σ (.error fault) σ' →
    Produces setting (.expression e) σ (.failed fault) σ'
  | nothing {e σ σ'} : Evaluates setting e σ (.ok .void) σ' →
    Produces setting (.expression e) σ .normal σ'
  | value {e σ a σ'} : Evaluates setting e σ (.ok a) σ' → a ≠ .void →
    Produces setting (.expression e) σ (σ'.returning a e.position) σ'

end

end FLang
