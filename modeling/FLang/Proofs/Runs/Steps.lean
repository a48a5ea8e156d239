import FLang.Evaluation

/-!
# The evaluator, step by step

What the parts of the evaluator do, each said once, so that proofs about running programs need not
open them. Where a part does not look at the machine, it is a result that is worked out without one
(`Eval.ofExcept`).

* `Eval.bind_of_value`, … — sequences; `Eval` is a lawful monad;
* `Setting.callee` — what a name stands for in a call (`callNamed_eq`);
* `Logical.operand`, `Value.truth`, `caseApplies` — truth values (`logical_eq`, `condition_eq`,
  `testSucceeds_eq`);
* `select`, `choose` — choices (`execute_choice`);
* `enter`, `perform` — calls (`invoke_succ`).
-/

namespace FLang

open Eval Evaluation

/-! ## Sequences -/

section
variable {α β : Type} {x : Eval α} {f : α → Eval β} {m m' : Machine}

/-- Behind a value, the next step goes on with the machine that is left. -/
theorem Eval.bind_of_value {a : α} (h : x m = (.value a, m')) : (x >>= f) m = f a m' := by
  simp only [show (x >>= f) m = Eval.bind x f m from rfl, Eval.bind, h]

/-- Behind a fault, there is no next step. -/
theorem Eval.bind_of_fault {fault : Fault} (h : x m = (.fault fault, m')) :
    (x >>= f) m = (.fault fault, m') := by
  simp only [show (x >>= f) m = Eval.bind x f m from rfl, Eval.bind, h]

/-- Behind a computation that does not end within its bound, there is none either. -/
theorem Eval.bind_of_exhausted (h : x m = (.exhausted, m')) :
    (x >>= f) m = (.exhausted, m') := by
  simp only [show (x >>= f) m = Eval.bind x f m from rfl, Eval.bind, h]

/-- If a sequence ends with a value, then so does its first part. -/
theorem Eval.value_of_bind {b : β} (h : (x >>= f) m = (.value b, m')) :
    ∃ a m₁, x m = (.value a, m₁) ∧ f a m₁ = (.value b, m') := by
  rcases hxm : x m with ⟨a | fault | _, m₁⟩
  · rw [Eval.bind_of_value hxm] at h
    exact ⟨a, m₁, rfl, h⟩
  · rw [Eval.bind_of_fault hxm] at h
    cases h
  · rw [Eval.bind_of_exhausted hxm] at h
    cases h

@[simp] theorem Eval.isReturning_bind (f : Bool → Eval β) (m : Machine) :
    (isReturning >>= f) m = f m.pending.isSome m :=
  rfl

end

instance : LawfulMonad Eval := by
  refine LawfulMonad.mk' _ (fun x => ?_) (fun a f => rfl) (fun x f g => ?_)
  · funext m
    rcases hx : x m with ⟨a | fault | _, m'⟩
    · exact Eval.bind_of_value hx
    · exact Eval.bind_of_fault hx
    · exact Eval.bind_of_exhausted hx
  · funext m
    rcases hx : x m with ⟨a | fault | _, m'⟩
    · rw [Eval.bind_of_value hx]
      simp only [bind, Eval.bind, hx]
    · rw [Eval.bind_of_fault hx, Eval.bind_of_fault (Eval.bind_of_fault hx)]
    · rw [Eval.bind_of_exhausted hx, Eval.bind_of_exhausted (Eval.bind_of_exhausted hx)]

theorem Except.eq_ok_of_toOption {ε α : Type} {result : Except ε α} {a : α}
    (h : result.toOption = some a) : result = .ok a := by
  cases result with
  | error fault => cases h
  | ok value => exact congrArg Except.ok (Option.some.inj h)

@[simp] theorem Eval.ofExcept_ok_bind {α β : Type} (a : α) (f : α → Eval β) :
    (Eval.ofExcept (.ok a) >>= f) = f a :=
  rfl

@[simp] theorem Eval.ofExcept_bind_pure {α β : Type} (r : Except Fault α) (f : α → β) :
    (Eval.ofExcept r >>= fun a => Pure.pure (f a)) = Eval.ofExcept (r.map f) := by
  cases r <;> rfl

/-- A value can be given back if it has the type that the call returns. -/
theorem Eval.giveBack_eq (value : Value) (position : Position) (m : Machine) :
    giveBack value position m =
      match m.arena.returnTypeOf m.scope with
      | .error fault => (.fault fault, m)
      | .ok expected =>
        if value.type = expected then (.value (), { m with pending := some value })
        else (.fault (.semantic position (.invalidReturnType value.type expected)), m) := by
  rcases hexpected : m.arena.returnTypeOf m.scope with fault | expected
  · have hask : (ask fun m => m.arena.returnTypeOf m.scope) m = (.fault fault, m) := by
      simp only [ask, hexpected, ofExcept, fail]
    exact Eval.bind_of_fault hask
  · have hask : (ask fun m => m.arena.returnTypeOf m.scope) m = (.value expected, m) := by
      simp only [ask, hexpected, ofExcept, Eval.pure]
    refine (Eval.bind_of_value hask).trans ?_
    by_cases htype : value.type = expected
    · exact (congrFun (if_pos htype) m).trans (if_pos htype).symm
    · exact (congrFun (if_neg htype) m).trans (if_neg htype).symm

/-- A loop tests its condition, executes its body and starts again. -/
theorem Eval.iterate_succ (test : Eval Bool) (body : Eval Unit) (bound : Nat) :
    iterate test body (bound + 1) = (do
      if ← test then
        body
        if ← isReturning then pure () else iterate test body bound
      else pure () : Eval Unit) := by
  funext m
  rw [iterate]
  rcases htest : test m with ⟨(_ | _) | fault | _, m₁⟩
  · rw [Eval.bind_of_value htest]
    rfl
  · rw [Eval.bind_of_value htest, if_pos rfl]
    rcases hbody : body m₁ with ⟨_ | fault | _, m₂⟩
    · rw [Eval.bind_of_value hbody, Eval.isReturning_bind]
      simp only [hbody]
      cases m₂.pending.isSome <;> rfl
    · rw [Eval.bind_of_fault hbody]
      simp only [hbody]
    · rw [Eval.bind_of_exhausted hbody]
      simp only [hbody]
  · rw [Eval.bind_of_fault htest]
  · rw [Eval.bind_of_exhausted htest]

/-! ## Expressions -/

/-- What a name can stand for in a call. -/
inductive Callee where
  | declared (function : Function)
  | embedded (function : Embedded)

/-- What a name stands for, if it takes so many arguments. Functions of the program come first. -/
def Setting.callee (setting : Setting) (position : Position) (name : String) (count : Nat) :
    Except Fault Callee :=
  match setting.program.find? name with
  | some function =>
    if function.parameters.length = count then .ok (.declared function)
    else .error (.semantic position (.wrongArgumentCount name function.parameters.length count))
  | none =>
    match setting.registry.find? name with
    | none => .error (.semantic position (.undefinedFunction name))
    | some function =>
      match function.arity with
      | some arity =>
        if arity = count then .ok (.embedded function)
        else .error (.semantic position (.wrongArgumentCount name arity count))
      | none => .ok (.embedded function)

/-- Calls what a name stands for. -/
def Callee.apply (invoke : Invoke) (values : List Value) (position : Position) :
    Callee → Eval Value
  | .declared function => invoke function values position
  | .embedded function => callEmbedded function values position

/-- A function of the program is found by its name, and takes the arguments. -/
theorem Setting.find?_of_callee {setting : Setting} {position : Position} {name : String}
    {count : Nat} {function : Function}
    (h : setting.callee position name count = .ok (.declared function)) :
    setting.program.find? name = some function ∧ function.parameters.length = count := by
  rw [Setting.callee] at h
  cases hfound : setting.program.find? name with
  | some other =>
    simp only [hfound] at h
    split at h
    · next hcount =>
      cases h
      exact ⟨rfl, hcount⟩
    · cases h
  | none =>
    simp only [hfound] at h
    split at h
    · cases h
    · split at h
      · split at h <;> cases h
      · cases h

theorem Setting.mem_of_callee {setting : Setting} {position : Position} {name : String}
    {count : Nat} {function : Function}
    (h : setting.callee position name count = .ok (.declared function)) :
    function ∈ setting.program.functions :=
  List.mem_of_find?_eq_some (Setting.find?_of_callee h).1

/-- Counting arguments does not touch the machine. -/
theorem Evaluation.checkCount_eq (name : String) (expected provided : Nat) (position : Position) :
    checkCount name expected provided position = Eval.ofExcept
      (if expected = provided then .ok ()
      else .error (.semantic position (.wrongArgumentCount name expected provided))) := by
  rw [checkCount]
  split <;> rfl

/-- A call by name looks the name up, evaluates the arguments and calls. -/
theorem Evaluation.callNamed_eq (setting : Setting) (invoke : Invoke) (position : Position)
    (name : String) (count : Nat) (arguments : Eval (List Value)) :
    callNamed setting invoke position name count arguments = (do
      let callee ← Eval.ofExcept (setting.callee position name count)
      let values ← arguments
      callee.apply invoke values position : Eval Value) := by
  rw [callNamed, Setting.callee]
  cases setting.program.find? name with
  | some function =>
    simp only [checkCount_eq]
    split <;> rfl
  | none =>
    cases setting.registry.find? name with
    | none => rfl
    | some function =>
      cases harity : function.arity with
      | none =>
        simp only [harity]
        rfl
      | some arity =>
        simp only [harity, checkCount_eq]
        split <;> rfl

/-- The truth value of an operand. -/
def Logical.operand (op : Logical) (position : Position) : Value → Except Fault Bool
  | .bool b => .ok b
  | value => .error (.semantic position (.logicalOperatorTypeMismatch op value.type))

/-- The truth value of a left operand that decides. -/
def Logical.decisive : Logical → Bool
  | .or => true
  | .and => false

theorem logicalOperand_eq (op : Logical) (position : Position) (value : Value) :
    logicalOperand op position value = Eval.ofExcept (op.operand position value) := by
  cases value <;> rfl

/-- An operand that has a truth value is one. -/
theorem Logical.eq_of_operand {op : Logical} {position : Position} {value : Value} {b : Bool}
    (h : op.operand position value = .ok b) : value = .bool b := by
  cases value <;> cases h
  rfl

/-- The right operand is evaluated only if the left one does not decide. -/
theorem logical_eq (op : Logical) (position : Position) (left right : Eval Value) :
    logical op position left right = (do
      let a ← left
      let first ← Eval.ofExcept (op.operand position a)
      if first = op.decisive then pure (.bool first)
      else right >>= fun b => Eval.ofExcept ((op.operand position b).map .bool) : Eval Value) := by
  simp only [logical, logicalOperand_eq, Eval.ofExcept_bind_pure]
  congr 1
  funext a
  congr 1
  funext first
  cases op <;> cases first <;> rfl

/-! ## Statements -/

/-- The truth value of a condition. -/
def Value.truth (construct : String) (position : Position) : Value → Except Fault Bool
  | .bool b => .ok b
  | value => .error (.semantic position (.nonBooleanCondition construct value.type))

/-- A condition is an expression, and then a test of its value that does not touch the machine. -/
theorem condition_eq (setting : Setting) (invoke : Invoke) (construct : String) (e : Expression) :
    condition setting invoke construct e =
      evaluate setting invoke e >>= fun a => Eval.ofExcept (a.truth construct e.position) := by
  rw [condition]
  congr 1
  funext a
  cases a <;> rfl

/-- A condition that has a truth value is one. -/
theorem Value.eq_of_truth {construct : String} {position : Position} {r : Except Fault Value}
    {b : Bool} (h : r.bind (Value.truth construct position) = .ok b) : r = .ok (.bool b) := by
  rcases r with fault | a
  · cases h
  · cases a <;> cases h
    rfl

/-- The expression that the cases of a choice are compared with. -/
def choiceExpression (guards : List Declaration) : Option Expression → Option Expression
  | some e => some e
  | none =>
    match guards with
    | [d] => some (.variable d.position d.name)
    | _ => none

/-- A choice looks at one expression or at none. -/
theorem choiceSubject_eq (setting : Setting) (invoke : Invoke) (guards : List Declaration)
    (subject : Option Expression) :
    choiceSubject setting invoke guards subject =
      match choiceExpression guards subject with
      | some e => some <$> evaluate setting invoke e
      | none => pure none := by
  rcases subject with _ | e
  · rcases guards with _ | ⟨d, _ | ⟨d', ds⟩⟩
    · rfl
    · simp only [choiceSubject, choiceExpression, evaluate]
    · rfl
  · rfl

/-- Whether a case applies, by the value of its test. -/
def caseApplies (subject : Option Value) (relation : Option Relation) (position : Position)
    (test : Expression) (value : Value) : Except Fault Bool :=
  match subject with
  | some compared => Value.relate (relation.getD .equal) compared value position
  | none => value.truth "switch case" test.position

/-- A test is an expression, and then a comparison that does not touch the machine. -/
theorem testSucceeds_eq (setting : Setting) (invoke : Invoke) {subject : Option Value}
    {relation : Option Relation} (h : relation.isSome → subject.isSome) (position : Position)
    (e : Expression) :
    testSucceeds setting invoke subject position relation e =
      evaluate setting invoke e >>= fun a =>
        Eval.ofExcept (caseApplies subject relation position e a) := by
  rcases relation with _ | op <;> rcases subject with _ | compared
  · exact condition_eq setting invoke "switch case" e
  · rfl
  · cases h rfl
  · rfl

/-- A relation without a value to compare with is the only test that is not evaluated. -/
theorem exists_of_unmatched {subject : Option Value} {relation : Option Relation}
    (h : ¬(relation.isSome → subject.isSome)) : ∃ op, relation = some op ∧ subject = none := by
  cases relation <;> cases subject <;> simp_all

/-- What is done when no case applies. -/
def fallbackOutput : List Case → Option CaseOutput
  | [] => none
  | .fallback _ output :: _ => some output
  | .test .. :: rest => fallbackOutput rest

/-- The default of a choice is found without running anything. -/
theorem executeFallback_eq (setting : Setting) (invoke : Invoke) (bound : Nat)
    (arms : List Case) :
    executeFallback setting invoke bound arms =
      match fallbackOutput arms with
      | some output => executeOutput setting invoke bound output
      | none => pure () := by
  induction arms with
  | nil => rw [executeFallback, fallbackOutput]
  | cons arm arms ih =>
    cases arm with
    | fallback position output => rw [executeFallback, fallbackOutput]
    | test position relation e output => rw [executeFallback, fallbackOutput, ih]

/-- Executes the output of the first of some cases whose test succeeds; if there is none, the output
of the fallback case among all cases. -/
def Evaluation.select (setting : Setting) (invoke : Invoke) (bound : Nat) (all : List Case)
    (subject : Option Value) (arms : List Case) : Eval Unit := do
  if ← executeFirstMatch setting invoke bound subject arms then pure ()
  else executeFallback setting invoke bound all

section
variable (setting : Setting) (invoke : Invoke) (bound : Nat)

theorem select_nil (all : List Case) (subject : Option Value) :
    select setting invoke bound all subject [] =
      match fallbackOutput all with
      | some output => executeOutput setting invoke bound output
      | none => pure () := by
  rw [select, executeFirstMatch, pure_bind, if_neg Bool.false_ne_true, executeFallback_eq]

theorem select_fallback (all : List Case) (subject : Option Value) (position : Position)
    (output : CaseOutput) (arms : List Case) :
    select setting invoke bound all subject (.fallback position output :: arms) =
      select setting invoke bound all subject arms := by
  rw [select, executeFirstMatch, select]

/-- A test is made, and only where it fails does the selection go on. -/
theorem select_test (all : List Case) (subject : Option Value) (position : Position)
    (relation : Option Relation) (e : Expression) (output : CaseOutput) (arms : List Case) :
    select setting invoke bound all subject (.test position relation e output :: arms) =
      testSucceeds setting invoke subject position relation e >>= fun succeeds =>
        if succeeds then executeOutput setting invoke bound output
        else select setting invoke bound all subject arms := by
  rw [select, executeFirstMatch, bind_assoc]
  congr 1
  funext succeeds
  cases succeeds with
  | false => rfl
  | true => simp only [if_true, bind_assoc, pure_bind, bind_pure_unit]

end

/-- A choice, in its own scope. -/
def Evaluation.choose (setting : Setting) (invoke : Invoke) (bound : Nat)
    (guards : List Declaration) (subject : Option Expression) (arms : List Case) : Eval Unit := do
  declareVariables setting invoke guards
  let value ← choiceSubject setting invoke guards subject
  select setting invoke bound arms value arms

/-- A choice opens its scope if it has no second fallback case. -/
theorem Evaluation.execute_choice (setting : Setting) (invoke : Invoke) (bound : Nat)
    (position : Position) (guards : List Declaration) (subject : Option Expression)
    (arms : List Case) :
    (∃ first second rest, fallbackPositions arms = first :: second :: rest ∧
      execute setting invoke bound (.choice position guards subject arms) =
        raise second .multipleDefaultCases) ∨
    ((fallbackPositions arms).length ≤ 1 ∧
      execute setting invoke bound (.choice position guards subject arms) =
        withScope none (choose setting invoke bound guards subject arms)) := by
  rw [execute]
  rcases fallbackPositions arms with _ | ⟨first, _ | ⟨second, rest⟩⟩
  · exact .inr ⟨Nat.zero_le 1, rfl⟩
  · exact .inr ⟨Nat.le_refl 1, rfl⟩
  · exact .inl ⟨first, second, rest, rfl, rfl⟩

/-! ## Calls -/

/-- A call ends with the value that is on its way. If none is, the function must return none. -/
theorem Evaluation.finishCall_eq (function : Function) (m : Machine) :
    finishCall function m =
      match m.pending with
      | some value => (.value value, { m with pending := none })
      | none =>
        if function.returnType = .void then (.value .void, m)
        else
          (.fault (.semantic function.position
            (.missingReturn function.name function.returnType)), m) := by
  obtain ⟨arena, scope, calls, pending, output⟩ := m
  refine (Eval.isReturning_bind _ _).trans ?_
  rcases pending with _ | value
  · by_cases hvoid : function.returnType = .void
    · simp [hvoid, takeReturned]
    · simp [hvoid, raise, fail]
  · simp [takeReturned]

/-- What is done in the scope of a call: parameters are declared, then the body is executed. -/
def Evaluation.enter (setting : Setting) (invoke : Invoke) (bound : Nat) (function : Function)
    (arguments : List Value) (position : Position) : Eval Unit := do
  bindParameters function.name position 1 function.parameters arguments
  executeAll setting invoke bound function.body.statements

/-- What is done while a call is active. -/
def Evaluation.perform (setting : Setting) (invoke : Invoke) (bound : Nat) (function : Function)
    (arguments : List Value) (position : Position) : Eval Value := do
  withScope (some function.returnType) (enter setting invoke bound function arguments position)
  finishCall function

/-- A call is refused if the function is active too often already. -/
theorem invoke_succ (setting : Setting) (bound : Nat) (function : Function)
    (arguments : List Value) (position : Position) (m : Machine) :
    invoke setting (bound + 1) function arguments position m =
      if m.calls.depth function.name ≥ setting.maxDepth then
        (.fault (.semantic position (.maxRecursionDepthExceeded setting.maxDepth function.name)), m)
      else
        whileActive function.name
          (perform setting (invoke setting bound) bound function arguments position) m := by
  have hinvoke : invoke setting (bound + 1) function arguments position m =
      (if m.calls.depth function.name ≥ setting.maxDepth then
        raise position (.maxRecursionDepthExceeded setting.maxDepth function.name)
      else
        whileActive function.name
          (perform setting (invoke setting bound) bound function arguments position)) m := rfl
  rw [hinvoke]
  by_cases hdepth : m.calls.depth function.name ≥ setting.maxDepth
  · rw [if_pos hdepth, if_pos hdepth]
    rfl
  · rw [if_neg hdepth, if_neg hdepth]

end FLang
