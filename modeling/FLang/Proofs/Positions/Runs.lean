import FLang.Proofs.Positions.Erasure
import FLang.Session

/-!
# Positions do not change what a program does

A program and the program without its positions run in step: at each point they are in machines that
differ in positions only, and so they print the same and end alike (`run_erase`). Two programs that
differ in positions only therefore behave alike (`run_ignores_positions`).

* `Value.negate_same`, … — an operation at another position has the same value, or the same fault at
  the other position;
* `ErasedCalls` — two meanings of calls, one of them without positions;
* `evaluate_erases`, `execute_erases` — what they carry over to the evaluation of trees, by
  recursion on the tree;
* `invoke_erases` — calls carry it over to themselves, by induction on how deep they are nested.
-/

namespace FLang

open Eval Evaluation

/-! ## Operations at positions -/

section
variable (position position' : Position)

theorem Value.negate_same (value : Value) :
    SameResult (value.negate position) (value.negate position') := by
  cases value <;> first | exact .ok _ | exact .semantic _ _ _

/-- A cast that is refused shows the same value at either position. -/
theorem Value.cast_same (value : Value) (target : BasicType) :
    SameResult (value.cast target position) (value.cast target position') := by
  unfold Value.cast
  split
  · exact .ok _
  · split
    · exact .ok _
    · cases value.describe with
      | ok text => exact .semantic _ _ _
      | error fault => exact .error rfl

/-- Operands fit a relation or not, wherever it stands. -/
theorem Value.relate_same (op : Relation) (left right : Value) :
    SameResult (Value.relate op left right position) (Value.relate op left right position') := by
  unfold Value.relate
  split
  · exact .ok _
  · exact .semantic _ _ _

/-- Operands fit an operation or not, wherever it stands. -/
theorem Value.calculate_same (op : Arithmetic) (left right : Value) :
    SameResult (Value.calculate op left right position)
      (Value.calculate op left right position') := by
  unfold Value.calculate
  split
  · exact .semantic _ _ _
  · split
    · exact .semantic _ _ _
    · exact .ok _

theorem Logical.operand_same (op : Logical) (value : Value) :
    SameResult (op.operand position value) (op.operand position' value) := by
  cases value <;> first | exact .ok _ | exact .semantic _ _ _

theorem Value.truth_same (construct : String) (value : Value) :
    SameResult (value.truth construct position) (value.truth construct position') := by
  cases value <;> first | exact .ok _ | exact .semantic _ _ _

/-- Whether a case applies does not depend on where its test stands. -/
theorem caseApplies_same (subject : Option Value) (relation : Option Relation)
    (test test' : Expression) (value : Value) :
    SameResult (caseApplies subject relation position test value)
      (caseApplies subject relation position' test' value) := by
  cases subject with
  | none => exact Value.truth_same _ _ _ value
  | some compared => exact Value.relate_same _ _ _ compared value

/-- The error about an argument names its place in the call, not its position. -/
theorem checkArgument_same (name : String) (index : Nat) (expected : ValueType) (value : Value) :
    SameResult (checkArgument name index expected value position)
      (checkArgument name index expected value position') := by
  unfold checkArgument
  split
  · exact .ok _
  · exact .semantic _ _ _

/-- Arguments are checked alike, by induction on them. -/
theorem checkArguments_same (function : Embedded) (index : Nat) (values : List Value) :
    SameResult (checkArguments function position index values)
      (checkArguments function position' index values) := by
  induction values generalizing index with
  | nil => exact .ok _
  | cons value values ih =>
    rw [checkArguments, checkArguments]
    by_cases hvoid : value.type = .void
    · rw [if_pos hvoid, if_pos hvoid]
      exact .semantic _ _ _
    rw [if_neg hvoid, if_neg hvoid]
    cases function.variadic with
    | true => exact ih (index + 1)
    | false =>
      rw [if_pos Bool.not_false, if_pos Bool.not_false]
      cases function.parameters[index - 1]? with
      | none => exact .error rfl
      | some expected =>
        simp only [checkArgument]
        by_cases htype : value.type = expected
        · rw [if_pos htype, if_pos htype]
          exact ih (index + 1)
        · rw [if_neg htype, if_neg htype]
          exact .semantic _ _ _

end

/-! ## Expressions -/

/-- Two meanings of calls, where the second one knows no positions. -/
structure ErasedCalls (setting setting' : Setting) (invoke invoke' : Invoke) : Prop where
  program : setting'.program = setting.program.erase
  registry : setting'.registry = setting.registry
  calls : ∀ function arguments position,
    (invoke function arguments position).ErasesTo (invoke' function.erase arguments .start)

/-- A function is found by its name, with or without positions. -/
@[simp] theorem Program.find?_erase (program : Program) (name : String) :
    program.erase.find? name = (program.find? name).map Function.erase := by
  rw [Program.find?, Program.find?, Program.erase, List.find?_map]
  rfl

/-- Leaving out positions keeps the number of arguments. -/
@[simp] theorem Expression.length_eraseAll (es : List Expression) :
    (Expression.eraseAll es).length = es.length := by
  induction es with
  | nil => rfl
  | cons e es ih => rw [eraseAll, List.length_cons, List.length_cons, ih]

/-- Embedded functions are not told where they are called. -/
theorem callEmbedded_erases (function : Embedded) (values : List Value)
    (position position' : Position) :
    (callEmbedded function values position).ErasesTo (callEmbedded function values position') := by
  refine (ErasesTo.ofExcept (checkArguments_same position position' function 1 values)).bind
    fun _ => (ErasesTo.emit _).bind fun _ => ?_
  rcases (function.behavior values).result with (details | fault) | value
  · exact .raise _ _ _
  · exact .fail rfl
  · exact .pure value

theorem checkCount_erases (name : String) (expected provided : Nat)
    (position position' : Position) :
    (checkCount name expected provided position).ErasesTo
      (checkCount name expected provided position') := by
  unfold checkCount
  split
  · exact .pure ()
  · exact .raise _ _ _

section
variable {setting setting' : Setting} {invoke invoke' : Invoke}

/-- A name stands for the same function without positions, or for none. -/
theorem callNamed_erases (h : ErasedCalls setting setting' invoke invoke') (position : Position)
    (name : String) (count : Nat) {arguments arguments' : Eval (List Value)}
    (harguments : arguments.ErasesTo arguments') :
    (callNamed setting invoke position name count arguments).ErasesTo
      (callNamed setting' invoke' .start name count arguments') := by
  have hcheck : ∀ expected, (checkCount name expected count position).ErasesTo
      (checkCount name expected count .start) := fun expected => checkCount_erases _ _ _ _ _
  unfold callNamed
  rw [h.program, h.registry, Program.find?_erase]
  cases setting.program.find? name with
  | some function =>
    have hlength : function.erase.parameters.length = function.parameters.length :=
      List.length_map _
    simp only [Option.map_some, hlength]
    refine (hcheck _).bind fun _ => harguments.bind fun values => ?_
    exact h.calls function values position
  | none =>
    simp only [Option.map_none]
    cases setting.registry.find? name with
    | none => exact .raise _ _ _
    | some function =>
      cases harity : function.arity with
      | none =>
        simp only [harity]
        exact harguments.bind fun values => callEmbedded_erases function values _ _
      | some arity =>
        simp only [harity]
        refine (hcheck arity).bind fun _ => harguments.bind fun values => ?_
        exact callEmbedded_erases function values _ _

/-- Whether the second operand is evaluated does not depend on positions. -/
theorem logical_erases (op : Logical) (position position' : Position)
    {left left' right right' : Eval Value} (hleft : left.ErasesTo left')
    (hright : right.ErasesTo right') :
    (logical op position left right).ErasesTo (logical op position' left' right') := by
  rw [logical_eq, logical_eq]
  refine hleft.bind fun a => (ErasesTo.ofExcept (op.operand_same _ _ a)).bind fun first => ?_
  by_cases hdecisive : first = op.decisive
  · rw [if_pos hdecisive, if_pos hdecisive]
    exact .pure _
  · rw [if_neg hdecisive, if_neg hdecisive]
    exact hright.bind fun b => .ofExcept ((op.operand_same _ _ b).map _)

mutual

/-- **Without positions, an expression has the same value.** -/
theorem evaluate_erases (h : ErasedCalls setting setting' invoke invoke') : ∀ e : Expression,
    (evaluate setting invoke e).ErasesTo (evaluate setting' invoke' e.erase)
  | .literal _ value => by
    rw [Expression.erase, evaluate, evaluate]
    exact .pure _
  | .variable position name => by
    rw [Expression.erase, evaluate, evaluate]
    exact .readVariable name position .start
  | .negate position operand => by
    rw [Expression.erase, evaluate, evaluate]
    exact (evaluate_erases h operand).bind fun value => .ofExcept (value.negate_same _ _)
  | .cast position operand target => by
    rw [Expression.erase, evaluate, evaluate]
    exact (evaluate_erases h operand).bind fun value => .ofExcept (value.cast_same _ _ target)
  | .binary position (.logical op) left right => by
    rw [Expression.erase, evaluate, evaluate]
    exact logical_erases op _ _ (evaluate_erases h left) (evaluate_erases h right)
  | .binary position (.relation op) left right => by
    rw [Expression.erase, evaluate, evaluate]
    refine (evaluate_erases h left).bind fun a => (evaluate_erases h right).bind fun b => ?_
    exact (ErasesTo.ofExcept (Value.relate_same _ _ op a b)).bind fun _ => .pure _
  | .binary position (.arithmetic op) left right => by
    rw [Expression.erase, evaluate, evaluate]
    refine (evaluate_erases h left).bind fun a => (evaluate_erases h right).bind fun b => ?_
    exact .ofExcept (Value.calculate_same _ _ op a b)
  | .call position name arguments => by
    rw [Expression.erase, evaluate, evaluate, Expression.length_eraseAll]
    exact callNamed_erases h position name _ (evaluateAll_erases h arguments)

/-- Arguments are evaluated alike, one after the other. -/
theorem evaluateAll_erases (h : ErasedCalls setting setting' invoke invoke') :
    ∀ es : List Expression, (evaluateAll setting invoke es).ErasesTo
      (evaluateAll setting' invoke' (Expression.eraseAll es))
  | [] => by
    rw [Expression.eraseAll, evaluateAll, evaluateAll]
    exact .pure []
  | first :: rest => by
    rw [Expression.eraseAll, evaluateAll, evaluateAll]
    refine (evaluate_erases h first).bind fun value => ?_
    exact (evaluateAll_erases h rest).bind fun values => .pure _

end

/-! ## Statements -/

theorem condition_erases (h : ErasedCalls setting setting' invoke invoke') (construct : String)
    (e : Expression) :
    (condition setting invoke construct e).ErasesTo
      (condition setting' invoke' construct e.erase) := by
  rw [condition_eq, condition_eq]
  exact (evaluate_erases h e).bind fun a => .ofExcept (a.truth_same _ _ construct)

theorem declareVariable_erases (h : ErasedCalls setting setting' invoke invoke')
    (d : Declaration) :
    (declareVariable setting invoke d).ErasesTo (declareVariable setting' invoke' d.erase) :=
  (evaluate_erases h d.initializer).bind fun value => .declare d.name value d.type d.position

/-- Guards are declared alike, by induction on them. -/
theorem declareVariables_erases (h : ErasedCalls setting setting' invoke invoke')
    (ds : List Declaration) :
    (declareVariables setting invoke ds).ErasesTo
      (declareVariables setting' invoke' (ds.map Declaration.erase)) := by
  induction ds with
  | nil => exact .pure ()
  | cons d ds ih => exact (declareVariable_erases h d).bind fun _ => ih

/-- The subject of a choice is an expression or its only guard. -/
theorem choiceSubject_erases (h : ErasedCalls setting setting' invoke invoke')
    (guards : List Declaration) (subject : Option Expression) :
    (choiceSubject setting invoke guards subject).ErasesTo
      (choiceSubject setting' invoke' (guards.map Declaration.erase)
        (subject.map Expression.erase)) := by
  rcases subject with _ | e
  · rcases guards with _ | ⟨d, _ | ⟨d', ds⟩⟩
    · exact .pure none
    · exact (ErasesTo.readVariable d.name d.position .start).map _
    · exact .pure none
  · exact (evaluate_erases h e).map _

/-- A test without its subject is refused alike. -/
theorem testSucceeds_erases (h : ErasedCalls setting setting' invoke invoke')
    (subject : Option Value) (position : Position) (relation : Option Relation) (e : Expression) :
    (testSucceeds setting invoke subject position relation e).ErasesTo
      (testSucceeds setting' invoke' subject .start relation e.erase) := by
  by_cases hmatched : relation.isSome → subject.isSome
  · rw [testSucceeds_eq setting invoke hmatched, testSucceeds_eq setting' invoke' hmatched]
    refine (evaluate_erases h e).bind fun a => ?_
    exact .ofExcept (caseApplies_same _ _ subject relation _ _ a)
  · obtain ⟨op, rfl, rfl⟩ := exists_of_unmatched hmatched
    exact .raise _ _ _

/-- As many cases are default cases as before. -/
theorem fallbackPositions_eraseAll (arms : List Case) :
    fallbackPositions (Case.eraseAll arms) = (fallbackPositions arms).map fun _ => .start := by
  induction arms with
  | nil => rfl
  | cons arm arms ih =>
    cases arm with
    | test position relation e output => exact ih
    | fallback position output => exact congrArg (List.cons Position.start) ih

variable {bound : Nat}

/-- A choice goes the same way without positions, if its cases do. -/
theorem choose_erases (h : ErasedCalls setting setting' invoke invoke')
    (guards : List Declaration) (subject : Option Expression) {arms : List Case}
    (hmatch : ∀ value, (executeFirstMatch setting invoke bound value arms).ErasesTo
      (executeFirstMatch setting' invoke' bound value (Case.eraseAll arms)))
    (hfallback : (executeFallback setting invoke bound arms).ErasesTo
      (executeFallback setting' invoke' bound (Case.eraseAll arms))) :
    (choose setting invoke bound guards subject arms).ErasesTo
      (choose setting' invoke' bound (guards.map Declaration.erase)
        (subject.map Expression.erase) (Case.eraseAll arms)) := by
  refine (declareVariables_erases h guards).bind fun _ => ?_
  refine (choiceSubject_erases h guards subject).bind fun value => ?_
  refine (hmatch value).bind fun found => ?_
  cases found with
  | true => exact .pure ()
  | false => exact hfallback

mutual

/-- **Without positions, a statement does the same.** -/
theorem execute_erases (h : ErasedCalls setting setting' invoke invoke') : ∀ s : Statement,
    (execute setting invoke bound s).ErasesTo (execute setting' invoke' bound s.erase)
  | .declaration d => by
    rw [Statement.erase, execute, execute]
    exact declareVariable_erases h d
  | .assignment position name value => by
    rw [Statement.erase, execute, execute]
    exact (evaluate_erases h value).bind fun assigned => .assign name assigned _ _
  | .conditional _ test thenBlock none => by
    rw [Statement.erase, execute, execute]
    refine (condition_erases h "if" test).bind fun holds => ?_
    cases holds with
    | true => exact executeBlock_erases h thenBlock
    | false => exact .pure ()
  | .conditional _ test thenBlock (some elseBlock) => by
    rw [Statement.erase, execute, execute]
    refine (condition_erases h "if" test).bind fun holds => ?_
    cases holds with
    | true => exact executeBlock_erases h thenBlock
    | false => exact executeBlock_erases h elseBlock
  | .loop _ test (.mk _ statements) => by
    rw [Statement.erase, Block.erase, execute, execute]
    exact (ErasesTo.iterate (condition_erases h "while" test) (executeAll_erases h statements)
      bound).withScope none
  | .choice position guards subject arms => by
    have hbody := choose_erases h guards subject
      (fun value => executeFirstMatch_erases h value arms) (executeFallback_erases h arms)
    rw [Statement.erase, execute, execute, fallbackPositions_eraseAll]
    -- erasing keeps the number of default cases, so both sides make the same complaint, each with
    -- its own positions
    rcases fallbackPositions arms with _ | ⟨first, _ | ⟨second, rest⟩⟩
    · exact hbody.withScope none
    · exact hbody.withScope none
    · exact .raise _ _ _
  | .giveBack position none => by
    rw [Statement.erase, Option.map_none, execute, execute]
    exact .giveBack _ _ _
  | .giveBack position (some e) => by
    rw [Statement.erase, Option.map_some, execute, execute]
    exact (evaluate_erases h e).bind fun value => .giveBack value _ _
  | .call position name arguments => by
    rw [Statement.erase, execute, execute, Expression.length_eraseAll]
    exact (callNamed_erases h position name _ (evaluateAll_erases h arguments)).bind
      fun _ => .pure ()

theorem executeBlock_erases (h : ErasedCalls setting setting' invoke invoke') : ∀ b : Block,
    (executeBlock setting invoke bound b).ErasesTo (executeBlock setting' invoke' bound b.erase)
  | .mk _ statements => by
    rw [Block.erase, executeBlock, executeBlock]
    exact (executeAll_erases h statements).withScope none

/-- Statements are executed alike until one of them returns. -/
theorem executeAll_erases (h : ErasedCalls setting setting' invoke invoke') :
    ∀ ss : List Statement, (executeAll setting invoke bound ss).ErasesTo
      (executeAll setting' invoke' bound (Statement.eraseAll ss))
  | [] => by
    rw [Statement.eraseAll, executeAll, executeAll]
    exact .pure ()
  | first :: rest => by
    rw [Statement.eraseAll, executeAll, executeAll]
    refine (execute_erases h first).bind fun _ => ErasesTo.isReturning.bind fun returning => ?_
    cases returning with
    | true => exact .pure ()
    | false => exact executeAll_erases h rest

/-- The first case that applies is the same without positions. -/
theorem executeFirstMatch_erases (h : ErasedCalls setting setting' invoke invoke')
    (subject : Option Value) : ∀ arms : List Case,
    (executeFirstMatch setting invoke bound subject arms).ErasesTo
      (executeFirstMatch setting' invoke' bound subject (Case.eraseAll arms))
  | [] => by
    rw [Case.eraseAll, executeFirstMatch, executeFirstMatch]
    exact .pure false
  | .fallback _ _ :: rest => by
    rw [Case.eraseAll, Case.erase, executeFirstMatch, executeFirstMatch]
    exact executeFirstMatch_erases h subject rest
  | .test position relation value output :: rest => by
    rw [Case.eraseAll, Case.erase, executeFirstMatch, executeFirstMatch]
    refine (testSucceeds_erases h subject position relation value).bind fun succeeds => ?_
    cases succeeds with
    | true => exact (executeOutput_erases h output).bind fun _ => .pure true
    | false => exact executeFirstMatch_erases h subject rest

/-- The default case is the same without positions. -/
theorem executeFallback_erases (h : ErasedCalls setting setting' invoke invoke') :
    ∀ arms : List Case, (executeFallback setting invoke bound arms).ErasesTo
      (executeFallback setting' invoke' bound (Case.eraseAll arms))
  | [] => by
    rw [Case.eraseAll, executeFallback, executeFallback]
    exact .pure ()
  | .fallback _ output :: _ => by
    rw [Case.eraseAll, Case.erase, executeFallback, executeFallback]
    exact executeOutput_erases h output
  | .test .. :: rest => by
    rw [Case.eraseAll, Case.erase, executeFallback, executeFallback]
    exact executeFallback_erases h rest

/-- What a case does is the same without positions. -/
theorem executeOutput_erases (h : ErasedCalls setting setting' invoke invoke') :
    ∀ output : CaseOutput, (executeOutput setting invoke bound output).ErasesTo
      (executeOutput setting' invoke' bound output.erase)
  | .block block => by
    rw [CaseOutput.erase, executeOutput, executeOutput]
    exact executeBlock_erases h block
  | .expression e => by
    rw [CaseOutput.erase, executeOutput, executeOutput]
    refine (evaluate_erases h e).bind fun value => ?_
    by_cases hvoid : value = .void
    · rw [if_pos hvoid, if_pos hvoid]
      exact .pure ()
    · rw [if_neg hvoid, if_neg hvoid]
      exact .giveBack value _ _

end

end

/-! ## Calls -/

/-- Parameters are bound alike, by induction on them. -/
theorem bindParameters_erases (name : String) (position position' : Position)
    (parameters : List Parameter) : ∀ (index : Nat) (values : List Value),
    (bindParameters name position index parameters values).ErasesTo
      (bindParameters name position' index (parameters.map Parameter.erase) values) := by
  induction parameters with
  | nil => exact fun _ _ => .pure ()
  | cons parameter parameters ih =>
    rintro index (_ | ⟨value, values⟩)
    · exact .pure ()
    · refine (ErasesTo.ofExcept (checkArgument_same _ _ name index _ value)).bind fun _ => ?_
      refine (ErasesTo.declare parameter.name value parameter.type parameter.position).bind
        fun _ => ?_
      exact ih (index + 1) values

/-- A call that has to return a value misses it with or without positions. -/
theorem finishCall_erases (function : Function) :
    (finishCall function).ErasesTo (finishCall function.erase) := by
  refine ErasesTo.isReturning.bind fun returning => ?_
  by_cases h : (!returning && function.returnType ≠ .void) = true
  · have h' : (!returning && function.erase.returnType ≠ .void) = true := h
    rw [if_pos h, if_pos h']
    exact .raise _ _ _
  · have h' : ¬ (!returning && function.erase.returnType ≠ .void) = true := h
    rw [if_neg h, if_neg h']
    exact .takeReturned

/-- The statements of a block without positions. -/
@[simp] theorem Block.statements_erase (b : Block) :
    b.erase.statements = Statement.eraseAll b.statements := by
  obtain ⟨position, ss⟩ := b
  rw [Block.erase]
  rfl

/-- A setting without positions. -/
def Setting.erase (setting : Setting) : Setting :=
  { setting with program := setting.program.erase }

/-- **Without positions, a call does the same**, however deep calls are nested. -/
theorem invoke_erases (setting : Setting) (bound : Nat) :
    ErasedCalls setting setting.erase (invoke setting bound) (invoke setting.erase bound) := by
  induction bound with
  | zero => exact ⟨rfl, rfl, fun _ _ _ => .exhausted⟩
  | succ bound ih =>
    refine ⟨rfl, rfl, fun function arguments position m => ?_⟩
    -- without positions the call is made at the start of the text, whatever its place was
    have henter : (enter setting (invoke setting bound) bound function arguments position).ErasesTo
        (enter setting.erase (invoke setting.erase bound) bound function.erase arguments
          .start) := by
      refine (bindParameters_erases function.name position .start function.parameters 1
        arguments).bind fun _ => ?_
      have hstatements : function.erase.body.statements =
          Statement.eraseAll function.body.statements := function.body.statements_erase
      rw [hstatements]
      exact executeAll_erases ih function.body.statements
    have hperform : (perform setting (invoke setting bound) bound function arguments
        position).ErasesTo (perform setting.erase (invoke setting.erase bound) bound
          function.erase arguments .start) :=
      (henter.withScope (some function.returnType)).bind fun _ => finishCall_erases function
    have hname : function.erase.name = function.name := rfl
    have hdepth : m.erase.calls = m.calls := rfl
    have hmax : setting.erase.maxDepth = setting.maxDepth := rfl
    rw [invoke_succ, invoke_succ, hname, hdepth, hmax]
    by_cases hrefused : m.calls.depth function.name ≥ setting.maxDepth
    · rw [if_pos hrefused, if_pos hrefused]
      exact ⟨rfl, rfl⟩
    · rw [if_neg hrefused, if_neg hrefused]
      exact hperform.whileActive function.name m

/-! ## Runs -/

/-- The call of an entry function carries over. -/
theorem call_erases (setting : Setting) (bound : Nat) (entry : String) (arguments : List Value) :
    (Session.call setting bound entry arguments).ErasesTo
      (Session.call setting.erase bound entry arguments) := by
  have hfind : setting.erase.program.find? entry =
      (setting.program.find? entry).map Function.erase := setting.program.find?_erase entry
  unfold Session.call
  rw [hfind]
  cases setting.program.find? entry with
  | none => exact .fail rfl
  | some function =>
    have hlength : function.erase.parameters.length = function.parameters.length :=
      List.length_map _
    simp only [Option.map_some, hlength]
    refine ErasesTo.takeReturned.bind fun _ => (checkCount_erases _ _ _ _ _).bind fun _ => ?_
    exact (invoke_erases setting bound).calls function arguments function.position

/-- **A program and the program without its positions run in step.** -/
theorem run_erase (program : Program) (registry : Registry) (maxDepth : Nat) (entry : String)
    (arguments : List Value) (bound : Nat) :
    (program.erase.run registry maxDepth entry arguments bound).1.erase =
        (program.run registry maxDepth entry arguments bound).1.erase ∧
      (program.erase.run registry maxDepth entry arguments bound).2 =
        (program.run registry maxDepth entry arguments bound).2.erase := by
  have hembedded : program.erase.functions.find? (fun f => registry.contains f.name) =
      (program.functions.find? fun f => registry.contains f.name).map Function.erase := by
    rw [Program.erase, List.find?_map]
    rfl
  have hnew : ({} : Machine).erase = {} := by
    simp [Machine.erase, Arena.erase, Arena.empty]
  unfold Program.run Setting.make
  rw [hembedded]
  cases program.functions.find? fun f => registry.contains f.name with
  | some function => exact ⟨rfl, hnew.symm⟩
  | none =>
    have hcall := call_erases ⟨program, registry, maxDepth⟩ bound entry arguments {}
    rw [hnew] at hcall
    exact hcall

/-- The details of a cause but for the line and the column of an earlier place. -/
def Diagnostic.Cause.detailsElsewhere (cause : Diagnostic.Cause) : Diagnostic.Details :=
  cause.details.filter fun detail => detail.1 ≠ "line" ∧ detail.1 ≠ "column"

/-- Faults of one kind: the same fault, or errors of the same stage and code, with the same details
other than lines and columns. -/
inductive Fault.Alike : Fault → Fault → Prop
  | same (fault : Fault) : Alike fault fault
  | diagnostic {d d' : Diagnostic} : d'.stage = d.stage → d'.cause.code = d.cause.code →
    d'.cause.detailsElsewhere = d.cause.detailsElsewhere → d'.file = d.file →
    Alike (.diagnostic d) (.diagnostic d')

/-- Outcomes of one kind. -/
inductive Outcome.Alike {α : Type} : Outcome α → Outcome α → Prop
  | value (a : α) : Alike (.value a) (.value a)
  | fault {f f' : Fault} : f.Alike f' → Alike (.fault f) (.fault f')
  | exhausted : Alike .exhausted .exhausted

/-- The kind of an error is not a matter of positions. -/
@[simp] theorem Diagnostic.Cause.code_erase (cause : Diagnostic.Cause) :
    cause.erase.code = cause.code := by
  cases cause <;> rfl

/-- The details other than lines and columns are kept. -/
@[simp] theorem Diagnostic.Cause.detailsElsewhere_erase (cause : Diagnostic.Cause) :
    cause.erase.detailsElsewhere = cause.detailsElsewhere := by
  cases cause <;> rfl

/-- Only an error of the program is still one without positions. -/
theorem Fault.of_erase_eq_diagnostic {f : Fault} {d : Diagnostic} (h : f.erase = .diagnostic d) :
    ∃ d', f = .diagnostic d' := by
  cases f with
  | diagnostic d' => exact ⟨d', rfl⟩
  | _ => cases h

/-- What is no error of the program has no positions to leave out. -/
theorem Fault.erase_of_ne {f : Fault} (h : ¬ ∃ d, f = .diagnostic d) : f.erase = f := by
  cases f with
  | diagnostic d => exact absurd ⟨d, rfl⟩ h
  | _ => rfl

/-- Faults that are the same without positions are of one kind. -/
theorem Fault.alike_of_erase {f f' : Fault} (h : f'.erase = f.erase) : f.Alike f' := by
  by_cases hf : ∃ d, f = .diagnostic d
  · obtain ⟨d, rfl⟩ := hf
    obtain ⟨d', rfl⟩ := Fault.of_erase_eq_diagnostic h
    obtain ⟨hstage, hcause, -, hfile⟩ := Diagnostic.mk.inj (Fault.diagnostic.inj h)
    refine .diagnostic hstage ?_ ?_ hfile
    · rw [← d'.cause.code_erase, hcause, d.cause.code_erase]
    · rw [← d'.cause.detailsElsewhere_erase, hcause, d.cause.detailsElsewhere_erase]
  · have hf' : ¬ ∃ d, f' = .diagnostic d := by
      rintro ⟨d', rfl⟩
      exact hf (Fault.of_erase_eq_diagnostic h.symm)
    rw [Fault.erase_of_ne hf, Fault.erase_of_ne hf'] at h
    exact h ▸ .same f

/-- Outcomes that are equal without positions are alike. -/
theorem Outcome.alike_of_erase {α : Type} {outcome outcome' : Outcome α}
    (h : outcome'.erase = outcome.erase) : outcome.Alike outcome' := by
  cases outcome with
  | value a =>
    obtain rfl := Outcome.erase_eq_value h
    exact .value a
  | fault f =>
    obtain ⟨f', rfl, herase⟩ := Outcome.erase_eq_fault h
    exact .fault (Fault.alike_of_erase herase)
  | exhausted =>
    obtain rfl := Outcome.erase_eq_exhausted h
    exact .exhausted

/-- **Behaviour does not depend on positions.** Two programs that differ in positions only print the
same with every bound on their calls and loops, and end alike: with the same value, with errors of
the same stage and code whose details differ in lines and columns only, or both not yet. So both
diverge or none. -/
theorem run_ignores_positions {program program' : Program}
    (h : program'.erase = program.erase) (registry : Registry) (maxDepth : Nat) (entry : String)
    (arguments : List Value) :
    (∀ bound, (program'.run registry maxDepth entry arguments bound).2.output =
        (program.run registry maxDepth entry arguments bound).2.output ∧
      (program.run registry maxDepth entry arguments bound).1.Alike
        (program'.run registry maxDepth entry arguments bound).1) ∧
    ((∀ bound, (program.run registry maxDepth entry arguments bound).1 = .exhausted) ↔
      ∀ bound, (program'.run registry maxDepth entry arguments bound).1 = .exhausted) := by
  -- both runs are compared with the run of the program without positions
  have hsame : ∀ bound, (program'.run registry maxDepth entry arguments bound).1.erase =
        (program.run registry maxDepth entry arguments bound).1.erase ∧
      (program'.run registry maxDepth entry arguments bound).2.erase =
        (program.run registry maxDepth entry arguments bound).2.erase := by
    intro bound
    obtain ⟨houtcome, hmachine⟩ := run_erase program registry maxDepth entry arguments bound
    obtain ⟨houtcome', hmachine'⟩ := run_erase program' registry maxDepth entry arguments bound
    rw [h] at houtcome' hmachine'
    exact ⟨houtcome'.symm.trans houtcome, hmachine'.symm.trans hmachine⟩
  refine ⟨fun bound => ⟨?_, Outcome.alike_of_erase (hsame bound).1⟩,
    forall_congr' fun bound => ⟨fun hrun => ?_, fun hrun => ?_⟩⟩
  · have houtput := congrArg Machine.output (hsame bound).2
    exact houtput
  · have houtcome := (hsame bound).1
    rw [hrun] at houtcome
    exact Outcome.erase_eq_exhausted houtcome
  · have houtcome := (hsame bound).1.symm
    rw [hrun] at houtcome
    exact Outcome.erase_eq_exhausted houtcome

/-- A program that declares a variable twice, at two places. -/
def redeclaring (first second : Position) : Program :=
  ⟨[⟨first, "main", [], .void, .mk first
    [.declaration ⟨first, "x", .int, .literal first (.int 1)⟩,
     .call first "println" [.variable first "x"],
     .declaration ⟨second, "x", .int, .literal second (.int 2)⟩]⟩]⟩

theorem run_ignores_positions_redeclaring :
    (redeclaring ⟨7, 5⟩ ⟨9, 5⟩).erase = (redeclaring ⟨1, 1⟩ ⟨1, 30⟩).erase ∧
      ((redeclaring ⟨1, 1⟩ ⟨1, 30⟩).run .standard 9 "main" [] 5).1 =
        .fault (.semantic ⟨1, 30⟩ (.redeclaredVariable "x" ⟨1, 1⟩)) ∧
      ((redeclaring ⟨7, 5⟩ ⟨9, 5⟩).run .standard 9 "main" [] 5).2.output = "1\n" ∧
      Outcome.Alike (.fault (.semantic ⟨1, 30⟩ (.redeclaredVariable "x" ⟨1, 1⟩)))
        ((redeclaring ⟨7, 5⟩ ⟨9, 5⟩).run .standard 9 "main" [] 5).1 := by
  have herase : (redeclaring ⟨7, 5⟩ ⟨9, 5⟩).erase = (redeclaring ⟨1, 1⟩ ⟨1, 30⟩).erase := rfl
  have hfault : ((redeclaring ⟨1, 1⟩ ⟨1, 30⟩).run .standard 9 "main" [] 5).1 =
      .fault (.semantic ⟨1, 30⟩ (.redeclaredVariable "x" ⟨1, 1⟩)) := by
    decide +kernel
  have houtput : ((redeclaring ⟨1, 1⟩ ⟨1, 30⟩).run .standard 9 "main" [] 5).2.output = "1\n" := by
    decide +kernel
  obtain ⟨hsame, halike⟩ := (run_ignores_positions herase .standard 9 "main" []).1 5
  rw [houtput] at hsame
  rw [hfault] at halike
  exact ⟨herase, hfault, hsame, halike⟩

end FLang
