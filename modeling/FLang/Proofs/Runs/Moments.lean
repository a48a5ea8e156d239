import FLang.Proofs.Runs.Balance
import Mathlib.Logic.Relation

/-!
# The moments of a run

The evaluator says how a computation ends. What is true *while* it runs is said of its moments: what
is being done, and the machine in which it is done.

* `Task` — something that is done as a whole: an expression is evaluated, a statement is executed, a
  function is called;
* `Moment` — a task and the machine that it finds;
* `Moment.Enters` — doing the one leads to doing the other as a part of it. Parts that come before
  have ended by then, which is said by the evaluator itself (`Setting.Yields`);
* `Setting.Reaches` — the moments of a run of an entry function, also of one that does not end;
* `Enters.calls` — which calls are active at the next moment.
-/

namespace FLang

open Eval Evaluation

/-- Something that is done in a run. -/
inductive Task where
  | evaluate (e : Expression)
  | evaluateAll (es : List Expression)
  | declareAll (ds : List Declaration)
  | execute (s : Statement)
  | executeBlock (b : Block)
  | executeAll (ss : List Statement)
  /-- A loop, in its own scope. -/
  | iterate (test : Expression) (body : List Statement)
  /-- A choice, in its own scope. -/
  | choose (guards : List Declaration) (subject : Option Expression) (arms : List Case)
  /-- The search for the first case whose test succeeds. -/
  | select (subject : Option Value) (arms : List Case)
  | fallBack (arms : List Case)
  | produce (output : CaseOutput)
  | call (function : Function) (arguments : List Value) (position : Position)
  /-- The body of a call, in its own scope. -/
  | enter (function : Function) (arguments : List Value) (position : Position)

/-- A task and the machine that it finds. -/
structure Moment where
  task : Task
  machine : Machine

/-- With some bound, a computation ends with a value. -/
def Setting.Yields {α : Type} (setting : Setting) (x : Invoke → Nat → Eval α) (m : Machine) (a : α)
    (m' : Machine) : Prop :=
  ∃ bound, x (invoke setting bound) bound m = (.value a, m')

/-- Whether the left operand leaves the right one to be evaluated. -/
def BinaryOperator.NeedsRight : BinaryOperator → Value → Prop
  | .logical op, left => left = .bool !op.decisive
  | .relation _, _ => True
  | .arithmetic _, _ => True

namespace Moment

/-- The second moment is a part of the first one. -/
inductive Enters (setting : Setting) : Moment → Moment → Prop
  | negated {position operand m} :
    Enters setting ⟨.evaluate (.negate position operand), m⟩ ⟨.evaluate operand, m⟩
  | casted {position operand target m} :
    Enters setting ⟨.evaluate (.cast position operand target), m⟩ ⟨.evaluate operand, m⟩
  | left {position op left right m} :
    Enters setting ⟨.evaluate (.binary position op left right), m⟩ ⟨.evaluate left, m⟩
  | right {position op left right m a m'} :
    setting.Yields (fun invoke _ => evaluate setting invoke left) m a m' → op.NeedsRight a →
    Enters setting ⟨.evaluate (.binary position op left right), m⟩ ⟨.evaluate right, m'⟩
  | arguments {position name es m callee} : setting.callee position name es.length = .ok callee →
    Enters setting ⟨.evaluate (.call position name es), m⟩ ⟨.evaluateAll es, m⟩
  | called {position name es m function values m'} :
    setting.callee position name es.length = .ok (.declared function) →
    setting.Yields (fun invoke _ => evaluateAll setting invoke es) m values m' →
    Enters setting ⟨.evaluate (.call position name es), m⟩ ⟨.call function values position, m'⟩
  | firstValue {e es m} : Enters setting ⟨.evaluateAll (e :: es), m⟩ ⟨.evaluate e, m⟩
  | otherValues {e es m a m'} :
    setting.Yields (fun invoke _ => evaluate setting invoke e) m a m' →
    Enters setting ⟨.evaluateAll (e :: es), m⟩ ⟨.evaluateAll es, m'⟩
  | initializer {d ds m} : Enters setting ⟨.declareAll (d :: ds), m⟩ ⟨.evaluate d.initializer, m⟩
  | otherDeclarations {d ds m m'} :
    setting.Yields (fun invoke _ => declareVariable setting invoke d) m () m' →
    Enters setting ⟨.declareAll (d :: ds), m⟩ ⟨.declareAll ds, m'⟩
  | declaration {d m} : Enters setting ⟨.execute (.declaration d), m⟩ ⟨.evaluate d.initializer, m⟩
  | assignment {position name e m} :
    Enters setting ⟨.execute (.assignment position name e), m⟩ ⟨.evaluate e, m⟩
  | ifTest {position test thenBlock elseBlock m} :
    Enters setting ⟨.execute (.conditional position test thenBlock elseBlock), m⟩
      ⟨.evaluate test, m⟩
  | thenBlock {position test thenBlock elseBlock m m'} :
    setting.Yields (fun invoke _ => condition setting invoke "if" test) m true m' →
    Enters setting ⟨.execute (.conditional position test thenBlock elseBlock), m⟩
      ⟨.executeBlock thenBlock, m'⟩
  | elseBlock {position test thenBlock elseBlock m m'} :
    setting.Yields (fun invoke _ => condition setting invoke "if" test) m false m' →
    Enters setting ⟨.execute (.conditional position test thenBlock (some elseBlock)), m⟩
      ⟨.executeBlock elseBlock, m'⟩
  | loop {position test place body m} :
    Enters setting ⟨.execute (.loop position test (.mk place body)), m⟩
      ⟨.iterate test body, m.opened none⟩
  | whileTest {test body m} : Enters setting ⟨.iterate test body, m⟩ ⟨.evaluate test, m⟩
  | whileBody {test body m m'} :
    setting.Yields (fun invoke _ => condition setting invoke "while" test) m true m' →
    Enters setting ⟨.iterate test body, m⟩ ⟨.executeAll body, m'⟩
  | again {test body m m' m''} :
    setting.Yields (fun invoke _ => condition setting invoke "while" test) m true m' →
    setting.Yields (fun invoke bound => executeAll setting invoke bound body) m' () m'' →
    m''.pending = none →
    Enters setting ⟨.iterate test body, m⟩ ⟨.iterate test body, m''⟩
  | choice {position guards subject arms m} : (fallbackPositions arms).length ≤ 1 →
    Enters setting ⟨.execute (.choice position guards subject arms), m⟩
      ⟨.choose guards subject arms, m.opened none⟩
  | guards {guards subject arms m} :
    Enters setting ⟨.choose guards subject arms, m⟩ ⟨.declareAll guards, m⟩
  | subject {guards e arms m m'} :
    setting.Yields (fun invoke _ => declareVariables setting invoke guards) m () m' →
    Enters setting ⟨.choose guards (some e) arms, m⟩ ⟨.evaluate e, m'⟩
  | select {guards subject arms m m' value m''} :
    setting.Yields (fun invoke _ => declareVariables setting invoke guards) m () m' →
    setting.Yields (fun invoke _ => choiceSubject setting invoke guards subject) m' value m'' →
    Enters setting ⟨.choose guards subject arms, m⟩ ⟨.select value arms, m''⟩
  | fallBack {guards subject arms m m' value m'' m'''} :
    setting.Yields (fun invoke _ => declareVariables setting invoke guards) m () m' →
    setting.Yields (fun invoke _ => choiceSubject setting invoke guards subject) m' value m'' →
    setting.Yields (fun invoke bound => executeFirstMatch setting invoke bound value arms)
      m'' false m''' →
    Enters setting ⟨.choose guards subject arms, m⟩ ⟨.fallBack arms, m'''⟩
  | skipped {value position output arms m} :
    Enters setting ⟨.select value (.fallback position output :: arms), m⟩ ⟨.select value arms, m⟩
  | caseTest {value position relation e output arms m} :
    (relation.isSome → value.isSome) →
    Enters setting ⟨.select value (.test position relation e output :: arms), m⟩ ⟨.evaluate e, m⟩
  | selected {value position relation e output arms m m'} :
    setting.Yields (fun invoke _ => testSucceeds setting invoke value position relation e)
      m true m' →
    Enters setting ⟨.select value (.test position relation e output :: arms), m⟩
      ⟨.produce output, m'⟩
  | otherCases {value position relation e output arms m m'} :
    setting.Yields (fun invoke _ => testSucceeds setting invoke value position relation e)
      m false m' →
    Enters setting ⟨.select value (.test position relation e output :: arms), m⟩
      ⟨.select value arms, m'⟩
  | fallbackOutput {position output arms m} :
    Enters setting ⟨.fallBack (.fallback position output :: arms), m⟩ ⟨.produce output, m⟩
  | notFallback {position relation e output arms m} :
    Enters setting ⟨.fallBack (.test position relation e output :: arms), m⟩ ⟨.fallBack arms, m⟩
  | outputBlock {block m} : Enters setting ⟨.produce (.block block), m⟩ ⟨.executeBlock block, m⟩
  | outputValue {e m} : Enters setting ⟨.produce (.expression e), m⟩ ⟨.evaluate e, m⟩
  | returned {position e m} :
    Enters setting ⟨.execute (.giveBack position (some e)), m⟩ ⟨.evaluate e, m⟩
  | callStatement {position name es m} :
    Enters setting ⟨.execute (.call position name es), m⟩ ⟨.evaluate (.call position name es), m⟩
  | block {position ss m} :
    Enters setting ⟨.executeBlock (.mk position ss), m⟩ ⟨.executeAll ss, m.opened none⟩
  | firstStatement {s ss m} : Enters setting ⟨.executeAll (s :: ss), m⟩ ⟨.execute s, m⟩
  | otherStatements {s ss m m'} :
    setting.Yields (fun invoke bound => execute setting invoke bound s) m () m' →
    m'.pending = none →
    Enters setting ⟨.executeAll (s :: ss), m⟩ ⟨.executeAll ss, m'⟩
  /-- A call that is not refused becomes active and opens its scope. -/
  | entered {function values position m} :
    m.calls.depth function.name < setting.maxDepth →
    Enters setting ⟨.call function values position, m⟩
      ⟨.enter function values position,
        ({ m with calls := m.calls.push function.name } : Machine).opened
          (some function.returnType)⟩
  | body {function values position m m'} :
    bindParameters function.name position 1 function.parameters values m = (.value (), m') →
    Enters setting ⟨.enter function values position, m⟩
      ⟨.executeAll function.body.statements, m'⟩

/-- The second moment comes up while the first one lasts. -/
abbrev Reaches (setting : Setting) : Moment → Moment → Prop :=
  Relation.ReflTransGen (Enters setting)

end Moment

/-- The moments of a run: what comes up while the entry function is called on a new machine. -/
def Setting.Reaches (setting : Setting) (entry : String) (arguments : List Value)
    (moment : Moment) : Prop :=
  ∃ function, setting.program.find? entry = some function ∧
    function.parameters.length = arguments.length ∧
    Moment.Reaches setting ⟨.call function arguments function.position, {}⟩ moment

/-! ## Active calls -/

/-- What has ended left the active calls as they were. -/
theorem Setting.Yields.calls {α : Type} {setting : Setting} {x : Invoke → Nat → Eval α}
    {m m' : Machine} {a : α} (h : setting.Yields x m a m')
    (hx : ∀ bound, (x (invoke setting bound) bound).Balanced) : m'.calls = m.calls := by
  obtain ⟨bound, hbound⟩ := h
  have hlevel := hx bound m
  rw [hbound] at hlevel
  exact hlevel.calls

namespace Moment

variable {setting : Setting} {moment moment' : Moment}

/-- The same calls are active in a part, unless it is the body of a call: then that call is, and it
was not refused. -/
theorem Enters.calls (h : Enters setting moment moment') :
    moment'.machine.calls = moment.machine.calls ∨
      ∃ function values position, moment.task = .call function values position ∧
        moment.machine.calls.depth function.name < setting.maxDepth ∧
        moment'.machine.calls = moment.machine.calls.push function.name := by
  have linked := linked_balance setting
  cases h with
  | right h _ => exact .inl (h.calls fun bound => (linked bound).evaluate _)
  | called _ h => exact .inl (h.calls fun bound => (linked bound).evaluateAll _)
  | otherValues h => exact .inl (h.calls fun bound => (linked bound).evaluate _)
  | otherDeclarations h => exact .inl (h.calls fun bound => (linked bound).declareVariable _)
  | thenBlock h => exact .inl (h.calls fun bound => (linked bound).condition _ _)
  | elseBlock h => exact .inl (h.calls fun bound => (linked bound).condition _ _)
  | whileBody h => exact .inl (h.calls fun bound => (linked bound).condition _ _)
  | again h h' _ =>
    have htest := h.calls fun bound => (linked bound).condition _ _
    have hbody := h'.calls fun bound => (linked bound).executeAll _
    exact .inl (hbody.trans htest)
  | subject h => exact .inl (h.calls fun bound => (linked bound).declareVariables _)
  | select h h' =>
    have hguards := h.calls fun bound => (linked bound).declareVariables _
    have hsubject := h'.calls fun bound => (linked bound).choiceSubject _ _
    exact .inl (hsubject.trans hguards)
  | fallBack h h' h'' =>
    have hguards := h.calls fun bound => (linked bound).declareVariables _
    have hsubject := h'.calls fun bound => (linked bound).choiceSubject _ _
    have hmatch := h''.calls fun bound => (linked bound).executeFirstMatch _ _
    exact .inl (hmatch.trans (hsubject.trans hguards))
  | selected h => exact .inl (h.calls fun bound => (linked bound).testSucceeds _ _ _ _)
  | otherCases h => exact .inl (h.calls fun bound => (linked bound).testSucceeds _ _ _ _)
  | otherStatements h _ => exact .inl (h.calls fun bound => (linked bound).execute _)
  -- this is the only step that begins a call; all others leave balanced computations behind them
  | entered hdepth => exact .inr ⟨_, _, _, rfl, hdepth, rfl⟩
  | @body function values position m m' h =>
    have hlevel : m.Level m' := by
      have hbalanced := balance.bindParameters function.name position function.parameters 1 values m
      rwa [h] at hbalanced
    exact .inl hlevel.calls
  | _ => exact .inl rfl

/-- Only functions of the program are called. -/
theorem Enters.function_mem (h : Enters setting moment moment') {function : Function}
    {values : List Value} {position : Position}
    (htask : moment'.task = .call function values position) :
    function ∈ setting.program.functions := by
  cases h with
  | called hcallee _ =>
    cases htask
    exact Setting.mem_of_callee hcallee
  | _ => cases htask

end Moment

end FLang
