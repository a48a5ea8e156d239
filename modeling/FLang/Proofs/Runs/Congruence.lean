import FLang.Proofs.Runs.Steps

/-!
# Relations that evaluation keeps

Many facts about running programs compare two runs, or say of one run that it keeps something. Both
are relations between computations, and what has to be shown of such a relation is always the same:
the operations from which the evaluation of a tree is made keep it.

* `Congruence` — a relation between computations that these operations keep;
* `Congruence.repeats` — loops keep it, whatever their bounds, if it allows for the bound of the
  first loop to be reached (`repeats_same`, `repeats_longer`);
* `Congruence.Links` — two meanings of calls and two bounds on loops that are related;
* `Links.evaluate`, `Links.execute` — then the two evaluations of a tree are related too.

Calls are left to each relation.
-/

namespace FLang

open Eval Evaluation

/-- A relation between computations that the operations of a tree's evaluation keep. -/
structure Congruence where
  rel : {α : Type} → Eval α → Eval α → Prop
  pure : ∀ {α : Type} (a : α), rel (pure a) (pure a)
  fail : ∀ {α : Type} (fault : Fault), rel (Eval.fail fault : Eval α) (Eval.fail fault)
  bind : ∀ {α β : Type} {x y : Eval α} {f g : α → Eval β},
    rel x y → (∀ a, rel (f a) (g a)) → rel (x >>= f) (y >>= g)
  readVariable : ∀ name position,
    rel (Eval.readVariable name position) (Eval.readVariable name position)
  declare : ∀ name value (type : BasicType) position,
    rel (Eval.declare name value type position) (Eval.declare name value type position)
  assign : ∀ name value position,
    rel (Eval.assign name value position) (Eval.assign name value position)
  emit : ∀ text, rel (Eval.emit text) (Eval.emit text)
  giveBack : ∀ value position, rel (Eval.giveBack value position) (Eval.giveBack value position)
  isReturning : rel Eval.isReturning Eval.isReturning
  takeReturned : rel Eval.takeReturned Eval.takeReturned
  /-- A scope that does not belong to a call. -/
  nested : ∀ {α : Type} {x y : Eval α}, rel x y → rel (withScope none x) (withScope none y)

/-- Loops of these lengths keep a relation. -/
def Congruence.Repeats (R : Congruence) (bound bound' : Nat) : Prop :=
  ∀ ⦃test test' : Eval Bool⦄ ⦃body body' : Eval Unit⦄, R.rel test test' → R.rel body body' →
    R.rel (iterate test body bound) (iterate test' body' bound')

namespace Congruence

variable (R : Congruence) {α β : Type}

/-- Loops keep a relation that holds when the bound of the first one is reached. -/
theorem repeats {more : Nat}
    (hzero : ∀ test body, R.rel Eval.exhausted (iterate test body more)) (bound : Nat) :
    R.Repeats bound (more + bound) := by
  intro test test' body body' htest hbody
  induction bound with
  | zero => exact hzero test' body'
  | succ bound ih =>
    rw [← Nat.add_assoc, iterate_succ, iterate_succ]
    refine R.bind htest fun holds => ?_
    cases holds with
    | false => exact R.pure ()
    | true =>
      refine R.bind hbody fun _ => R.bind R.isReturning fun returning => ?_
      cases returning with
      | true => exact R.pure ()
      | false => exact ih

/-- Loops of the same length keep a relation that holds of what does not end. -/
theorem repeats_same (hzero : R.rel (Eval.exhausted : Eval Unit) Eval.exhausted) (bound : Nat) :
    R.Repeats bound bound := by
  have hstopped : ∀ test body, R.rel Eval.exhausted (iterate test body 0) := fun _ _ => hzero
  have hrepeats := R.repeats hstopped bound
  rwa [Nat.zero_add] at hrepeats

/-- Longer loops keep a relation between what does not end and anything else. -/
theorem repeats_longer (hzero : ∀ y : Eval Unit, R.rel Eval.exhausted y) {bound bound' : Nat}
    (h : bound ≤ bound') : R.Repeats bound bound' := by
  obtain ⟨more, rfl⟩ := Nat.exists_eq_add_of_le' h
  exact R.repeats (fun _ _ => hzero _) bound

theorem raise (position : Position) (cause : Diagnostic.Cause) :
    R.rel (Eval.raise position cause : Eval α) (Eval.raise position cause) :=
  R.fail _

/-- A result that is worked out without the machine is related to itself. -/
theorem ofExcept (result : Except Fault α) :
    R.rel (Eval.ofExcept result) (Eval.ofExcept result) := by
  cases result with
  | ok a => exact R.pure a
  | error fault => exact R.fail fault

theorem map (f : α → β) {x y : Eval α} (h : R.rel x y) : R.rel (f <$> x) (f <$> y) :=
  R.bind h fun a => R.pure (f a)

theorem checkCount (name : String) (expected provided : Nat) (position : Position) :
    R.rel (Evaluation.checkCount name expected provided position)
      (Evaluation.checkCount name expected provided position) := by
  rw [checkCount_eq]
  exact R.ofExcept _

/-- An embedded function is given the same arguments on both sides. -/
theorem callEmbedded (function : Embedded) (arguments : List Value) (position : Position) :
    R.rel (Evaluation.callEmbedded function arguments position)
      (Evaluation.callEmbedded function arguments position) := by
  refine R.bind (R.ofExcept _) fun _ => R.bind (R.emit _) fun _ => ?_
  rcases (function.behavior arguments).result with (details | fault) | value
  · exact R.raise _ _
  · exact R.fail fault
  · exact R.pure value

/-- Both sides evaluate the second operand or neither does, since their first operands have the same
value. -/
theorem logical (op : Logical) (position : Position) {left left' right right' : Eval Value}
    (hleft : R.rel left left') (hright : R.rel right right') :
    R.rel (Evaluation.logical op position left right)
      (Evaluation.logical op position left' right') := by
  rw [logical_eq, logical_eq]
  refine R.bind hleft fun value => R.bind (R.ofExcept _) fun first => ?_
  by_cases hdecisive : first = op.decisive
  · rw [if_pos hdecisive, if_pos hdecisive]
    exact R.pure _
  · rw [if_neg hdecisive, if_neg hdecisive]
    exact R.bind hright fun _ => R.ofExcept _

/-- Binding parameters is related to itself, by induction on them. -/
theorem bindParameters (name : String) (position : Position) (parameters : List Parameter) :
    ∀ (index : Nat) (values : List Value),
      R.rel (Evaluation.bindParameters name position index parameters values)
        (Evaluation.bindParameters name position index parameters values) := by
  induction parameters with
  | nil => exact fun _ _ => R.pure ()
  | cons parameter parameters ih =>
    rintro index (_ | ⟨value, values⟩)
    · exact R.pure ()
    · refine R.bind (R.ofExcept _) fun _ => R.bind (R.declare _ _ _ _) fun _ => ?_
      exact ih (index + 1) values

/-- The end of a call is related to itself. -/
theorem finishCall (function : Function) :
    R.rel (Evaluation.finishCall function) (Evaluation.finishCall function) := by
  refine R.bind R.isReturning fun returning => ?_
  by_cases h : (!returning && function.returnType ≠ .void) = true
  · rw [if_pos h]
    exact R.raise _ _
  · rw [if_neg h]
    exact R.takeReturned

/-- Two meanings of calls that are related, and two bounds on loops. The settings may differ in how
deep calls may be nested, which no tree can see. -/
structure Links (R : Congruence) (setting setting' : Setting) (invoke invoke' : Invoke)
    (bound bound' : Nat) : Prop where
  program : setting'.program = setting.program
  registry : setting'.registry = setting.registry
  calls : ∀ function ∈ setting.program.functions, ∀ arguments position,
    R.rel (invoke function arguments position) (invoke' function arguments position)
  loops : R.Repeats bound bound'

end Congruence

/-! ## Expressions -/

section
variable {R : Congruence} {setting setting' : Setting} {invoke invoke' : Invoke}
  {bound bound' : Nat}

namespace Congruence.Links

/-- A name stands for the same function on both sides. -/
theorem callNamed (h : R.Links setting setting' invoke invoke' bound bound') (position : Position)
    (name : String) (count : Nat) {arguments arguments' : Eval (List Value)}
    (harguments : R.rel arguments arguments') :
    R.rel (Evaluation.callNamed setting invoke position name count arguments)
      (Evaluation.callNamed setting' invoke' position name count arguments') := by
  have hcallee : setting'.callee position name count = setting.callee position name count := by
    rw [Setting.callee, Setting.callee, h.program, h.registry]
  rw [callNamed_eq, callNamed_eq, hcallee]
  rcases hfound : setting.callee position name count with fault | callee
  · exact R.fail fault
  · rw [Eval.ofExcept_ok_bind, Eval.ofExcept_ok_bind]
    refine R.bind harguments fun values => ?_
    cases callee with
    | declared function => exact h.calls function (Setting.mem_of_callee hfound) values position
    | embedded function => exact R.callEmbedded function values position

mutual

/-- **The two values of an expression are related.** -/
theorem evaluate (h : R.Links setting setting' invoke invoke' bound bound') : ∀ e : Expression,
    R.rel (Evaluation.evaluate setting invoke e) (Evaluation.evaluate setting' invoke' e)
  | .literal _ value => by
    rw [Evaluation.evaluate, Evaluation.evaluate]
    exact R.pure _
  | .variable position name => by
    rw [Evaluation.evaluate, Evaluation.evaluate]
    exact R.readVariable name position
  | .negate position operand => by
    rw [Evaluation.evaluate, Evaluation.evaluate]
    exact R.bind (h.evaluate operand) fun value => R.ofExcept _
  | .cast position operand target => by
    rw [Evaluation.evaluate, Evaluation.evaluate]
    exact R.bind (h.evaluate operand) fun value => R.ofExcept _
  | .binary position (.logical op) left right => by
    rw [Evaluation.evaluate, Evaluation.evaluate]
    exact R.logical op position (h.evaluate left) (h.evaluate right)
  | .binary position (.relation op) left right => by
    rw [Evaluation.evaluate, Evaluation.evaluate]
    refine R.bind (h.evaluate left) fun a => R.bind (h.evaluate right) fun b => ?_
    exact R.bind (R.ofExcept _) fun _ => R.pure _
  | .binary position (.arithmetic op) left right => by
    rw [Evaluation.evaluate, Evaluation.evaluate]
    exact R.bind (h.evaluate left) fun a => R.bind (h.evaluate right) fun b => R.ofExcept _
  | .call position name arguments => by
    rw [Evaluation.evaluate, Evaluation.evaluate]
    exact h.callNamed position name _ (h.evaluateAll arguments)

/-- The values of arguments are related, one after the other. -/
theorem evaluateAll (h : R.Links setting setting' invoke invoke' bound bound') :
    ∀ es : List Expression, R.rel (Evaluation.evaluateAll setting invoke es)
      (Evaluation.evaluateAll setting' invoke' es)
  | [] => by
    rw [Evaluation.evaluateAll, Evaluation.evaluateAll]
    exact R.pure []
  | first :: rest => by
    rw [Evaluation.evaluateAll, Evaluation.evaluateAll]
    refine R.bind (h.evaluate first) fun value => R.bind (h.evaluateAll rest) fun values => ?_
    exact R.pure _

end

/-! ## Statements -/

/-- Conditions are related as their values are. -/
theorem condition (h : R.Links setting setting' invoke invoke' bound bound') (construct : String)
    (e : Expression) :
    R.rel (Evaluation.condition setting invoke construct e)
      (Evaluation.condition setting' invoke' construct e) := by
  rw [condition_eq, condition_eq]
  exact R.bind (h.evaluate e) fun _ => R.ofExcept _

theorem declareVariable (h : R.Links setting setting' invoke invoke' bound bound')
    (d : Declaration) :
    R.rel (Evaluation.declareVariable setting invoke d)
      (Evaluation.declareVariable setting' invoke' d) :=
  R.bind (h.evaluate d.initializer) fun _ => R.declare _ _ _ _

/-- Guards are declared in step. -/
theorem declareVariables (h : R.Links setting setting' invoke invoke' bound bound')
    (ds : List Declaration) :
    R.rel (Evaluation.declareVariables setting invoke ds)
      (Evaluation.declareVariables setting' invoke' ds) := by
  induction ds with
  | nil => exact R.pure ()
  | cons d ds ih => exact R.bind (h.declareVariable d) fun _ => ih

/-- The subject of a choice is an expression or its only guard, on both sides. -/
theorem choiceSubject (h : R.Links setting setting' invoke invoke' bound bound')
    (guards : List Declaration) (subject : Option Expression) :
    R.rel (Evaluation.choiceSubject setting invoke guards subject)
      (Evaluation.choiceSubject setting' invoke' guards subject) := by
  rcases subject with _ | e
  · rcases guards with _ | ⟨d, _ | ⟨d', ds⟩⟩
    · exact R.pure none
    · exact R.map _ (R.readVariable d.name d.position)
    · exact R.pure none
  · exact R.map _ (h.evaluate e)

/-- Tests are made alike for the same subject. -/
theorem testSucceeds (h : R.Links setting setting' invoke invoke' bound bound')
    (subject : Option Value) (position : Position) (relation : Option Relation) (e : Expression) :
    R.rel (Evaluation.testSucceeds setting invoke subject position relation e)
      (Evaluation.testSucceeds setting' invoke' subject position relation e) := by
  rcases relation with _ | op <;> rcases subject with _ | value
  · exact h.condition _ e
  · exact R.bind (h.evaluate e) fun _ => R.ofExcept _
  · exact R.raise _ _
  · exact R.bind (h.evaluate e) fun _ => R.ofExcept _

/-- Choices are related, if what their cases do is. -/
theorem choose (h : R.Links setting setting' invoke invoke' bound bound')
    (guards : List Declaration) (subject : Option Expression) {arms : List Case}
    (hmatch : ∀ value, R.rel (Evaluation.executeFirstMatch setting invoke bound value arms)
      (Evaluation.executeFirstMatch setting' invoke' bound' value arms))
    (hfallback : R.rel (Evaluation.executeFallback setting invoke bound arms)
      (Evaluation.executeFallback setting' invoke' bound' arms)) :
    R.rel (Evaluation.choose setting invoke bound guards subject arms)
      (Evaluation.choose setting' invoke' bound' guards subject arms) := by
  refine R.bind (h.declareVariables guards) fun _ => ?_
  refine R.bind (h.choiceSubject guards subject) fun value => ?_
  refine R.bind (hmatch value) fun found => ?_
  cases found with
  | true => exact R.pure ()
  | false => exact hfallback

mutual

/-- **The two executions of a statement are related.** -/
theorem execute (h : R.Links setting setting' invoke invoke' bound bound') :
    ∀ s : Statement, R.rel (Evaluation.execute setting invoke bound s)
      (Evaluation.execute setting' invoke' bound' s)
  | .declaration d => by
    rw [Evaluation.execute, Evaluation.execute]
    exact h.declareVariable d
  | .assignment position name value => by
    rw [Evaluation.execute, Evaluation.execute]
    exact R.bind (h.evaluate value) fun _ => R.assign _ _ _
  | .conditional _ test thenBlock none => by
    rw [Evaluation.execute, Evaluation.execute]
    refine R.bind (h.condition "if" test) fun holds => ?_
    cases holds with
    | true => exact h.executeBlock thenBlock
    | false => exact R.pure ()
  | .conditional _ test thenBlock (some elseBlock) => by
    rw [Evaluation.execute, Evaluation.execute]
    refine R.bind (h.condition "if" test) fun holds => ?_
    cases holds with
    | true => exact h.executeBlock thenBlock
    | false => exact h.executeBlock elseBlock
  | .loop _ test (.mk _ statements) => by
    rw [Evaluation.execute, Evaluation.execute]
    -- the two sides may have different bounds, so that the rounds are related by a law of their own
    exact R.nested (h.loops (h.condition "while" test) (h.executeAll statements))
  | .choice _ guards subject arms => by
    rw [Evaluation.execute, Evaluation.execute]
    split
    · exact R.raise _ _
    · exact R.nested (h.choose guards subject (fun value => h.executeFirstMatch value arms)
        (h.executeFallback arms))
  | .giveBack position none => by
    rw [Evaluation.execute, Evaluation.execute]
    exact R.giveBack _ _
  | .giveBack position (some e) => by
    rw [Evaluation.execute, Evaluation.execute]
    exact R.bind (h.evaluate e) fun _ => R.giveBack _ _
  | .call position name arguments => by
    rw [Evaluation.execute, Evaluation.execute]
    exact R.bind (h.callNamed position name _ (h.evaluateAll arguments)) fun _ => R.pure ()

theorem executeBlock (h : R.Links setting setting' invoke invoke' bound bound') :
    ∀ b : Block, R.rel (Evaluation.executeBlock setting invoke bound b)
      (Evaluation.executeBlock setting' invoke' bound' b)
  | .mk _ statements => by
    rw [Evaluation.executeBlock, Evaluation.executeBlock]
    exact R.nested (h.executeAll statements)

/-- Both sides go on to the next statement or neither does. -/
theorem executeAll (h : R.Links setting setting' invoke invoke' bound bound') :
    ∀ ss : List Statement, R.rel (Evaluation.executeAll setting invoke bound ss)
      (Evaluation.executeAll setting' invoke' bound' ss)
  | [] => by
    rw [Evaluation.executeAll, Evaluation.executeAll]
    exact R.pure ()
  | first :: rest => by
    rw [Evaluation.executeAll, Evaluation.executeAll]
    refine R.bind (h.execute first) fun _ => ?_
    refine R.bind R.isReturning fun returning => ?_
    cases returning with
    | true => exact R.pure ()
    | false => exact h.executeAll rest

/-- The tests of a choice are made in step, up to the first that succeeds. -/
theorem executeFirstMatch (h : R.Links setting setting' invoke invoke' bound bound')
    (subject : Option Value) :
    ∀ arms : List Case, R.rel (Evaluation.executeFirstMatch setting invoke bound subject arms)
      (Evaluation.executeFirstMatch setting' invoke' bound' subject arms)
  | [] => by
    rw [Evaluation.executeFirstMatch, Evaluation.executeFirstMatch]
    exact R.pure false
  | .fallback _ _ :: rest => by
    rw [Evaluation.executeFirstMatch, Evaluation.executeFirstMatch]
    exact h.executeFirstMatch subject rest
  | .test position relation value output :: rest => by
    rw [Evaluation.executeFirstMatch, Evaluation.executeFirstMatch]
    refine R.bind (h.testSucceeds subject position relation value) fun succeeds => ?_
    cases succeeds with
    | true => exact R.bind (h.executeOutput output) fun _ => R.pure true
    | false => exact h.executeFirstMatch subject rest

/-- The default case is the same on both sides. -/
theorem executeFallback (h : R.Links setting setting' invoke invoke' bound bound') :
    ∀ arms : List Case, R.rel (Evaluation.executeFallback setting invoke bound arms)
      (Evaluation.executeFallback setting' invoke' bound' arms)
  | [] => by
    rw [Evaluation.executeFallback, Evaluation.executeFallback]
    exact R.pure ()
  | .fallback _ output :: rest => by
    rw [Evaluation.executeFallback, Evaluation.executeFallback]
    exact h.executeOutput output
  | .test .. :: rest => by
    rw [Evaluation.executeFallback, Evaluation.executeFallback]
    exact h.executeFallback rest

/-- What a case does is related, as a block or as a value that is given back. -/
theorem executeOutput (h : R.Links setting setting' invoke invoke' bound bound') :
    ∀ output : CaseOutput, R.rel (Evaluation.executeOutput setting invoke bound output)
      (Evaluation.executeOutput setting' invoke' bound' output)
  | .block block => by
    rw [Evaluation.executeOutput, Evaluation.executeOutput]
    exact h.executeBlock block
  | .expression e => by
    rw [Evaluation.executeOutput, Evaluation.executeOutput]
    refine R.bind (h.evaluate e) fun value => ?_
    by_cases hvoid : value = .void
    · rw [if_pos hvoid]
      exact R.pure ()
    · rw [if_neg hvoid]
      exact R.giveBack _ _

end

end Congruence.Links

end

/-! ## Calls -/

/-- **The bodies of two calls are related**, up to the scope around them. -/
theorem Congruence.Links.enter {R : Congruence} {setting setting' : Setting}
    {invoke invoke' : Invoke} {bound bound' : Nat}
    (h : R.Links setting setting' invoke invoke' bound bound') (function : Function)
    (arguments : List Value) (position : Position) :
    R.rel (Evaluation.enter setting invoke bound function arguments position)
      (Evaluation.enter setting' invoke' bound' function arguments position) :=
  R.bind (R.bindParameters _ _ _ _ _) fun _ => h.executeAll _

end FLang
