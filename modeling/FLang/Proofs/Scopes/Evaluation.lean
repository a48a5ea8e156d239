import FLang.Evaluation
import FLang.Proofs.Scopes.Effects

/-!
# Evaluation and scopes

Which scopes the evaluation of a program touches, and with which faults it can end.

* `Supports ok` — what the evaluation of a tree rests on: calls leave the scopes as they are, and
  embedded functions fail only in ways that are `ok`;
* `evaluate_follows` — then expressions leave the scopes as they are. It is enough that the names in
  scope can be read (`Readable`);
* `execute_follows` — and statements change variables in the region of their call only;
* `invoke_follows` — so calls leave the scopes as they are, by induction on how deep they are
  nested.

The faults are a parameter throughout. If all of them are `ok`, then the results are about scopes
alone, and hold of every machine (`evaluate_scopes`).
-/

namespace FLang

open Eval Evaluation

/-! ## Faults of operations -/

section
variable {fault : Fault} {position : Position} {value : Value}

/-- Only an integer of too many digits has no text. -/
theorem Value.render_error (h : value.render = .error fault) : fault = .tooManyDigits none := by
  unfold render at h
  split at h
  · cases h
  · split at h
    · cases h
    · exact (Except.error.inj h).symm
  · cases h
  · cases h
  · cases h

/-- Only an integer of too many digits cannot be shown. -/
theorem Value.describe_error (h : value.describe = .error fault) : fault = .tooManyDigits none := by
  unfold describe at h
  split at h
  · cases h
  · cases h
  · exact Value.render_error h

/-- A cast fails with an error of the program, unless the value cannot even be shown. -/
theorem Value.cast_error {target : BasicType} (h : value.cast target position = .error fault) :
    (∃ cause, fault = .semantic position cause) ∨ fault = .tooManyDigits none := by
  rw [Value.cast] at h
  by_cases htype : value.type = target
  · rw [if_pos htype] at h
    cases h
  rw [if_neg htype] at h
  cases hc : value.convert? target with
  | some converted =>
    rw [hc] at h
    cases h
  | none =>
    rw [hc] at h
    cases hd : value.describe with
    | ok text =>
      rw [hd] at h
      exact .inl ⟨_, (Except.error.inj h).symm⟩
    | error fault' =>
      rw [hd] at h
      obtain rfl := Except.error.inj h
      exact .inr (Value.describe_error hd)

/-- A relation fails with an error of the program. -/
theorem Value.relate_error {op : Relation} {left right : Value}
    (h : Value.relate op left right position = .error fault) :
    ∃ cause, fault = .semantic position cause := by
  rw [Value.relate] at h
  cases hc : Value.compare? op left right with
  | some result =>
    rw [hc] at h
    cases h
  | none =>
    rw [hc] at h
    exact ⟨_, (Except.error.inj h).symm⟩

/-- An operation fails with an error of the program. -/
theorem Value.calculate_error {op : Arithmetic} {left right : Value}
    (h : Value.calculate op left right position = .error fault) :
    ∃ cause, fault = .semantic position cause := by
  rw [Value.calculate] at h
  cases hc : Value.compute? op left right with
  | none =>
    rw [hc] at h
    exact ⟨_, (Except.error.inj h).symm⟩
  | some result =>
    simp only [hc] at h
    split at h
    · exact ⟨_, (Except.error.inj h).symm⟩
    · cases h

/-- A negation fails with an error of the program. -/
theorem Value.negate_error (h : value.negate position = .error fault) :
    ∃ cause, fault = .semantic position cause := by
  cases value with
  | void => exact ⟨_, (Except.error.inj h).symm⟩
  | string text => exact ⟨_, (Except.error.inj h).symm⟩
  | _ => cases h

/-- An argument of a wrong type is an error of the program. -/
theorem checkArgument_error {name : String} {index : Nat} {expected : ValueType}
    (h : checkArgument name index expected value position = .error fault) :
    ∃ cause, fault = .semantic position cause := by
  rw [checkArgument] at h
  by_cases htype : value.type = expected
  · rw [if_pos htype] at h
    cases h
  · rw [if_neg htype] at h
    exact ⟨_, (Except.error.inj h).symm⟩

end

/-! ## Arguments of embedded functions -/

/-- The arguments that a call passes on to an embedded function. -/
structure Embedded.Accepts (function : Embedded) (arguments : List Value) : Prop where
  /-- All of them are there. -/
  not_void : ∀ value ∈ arguments, value.type ≠ .void
  /-- They have the types of the parameters, unless any will do. -/
  types : function.variadic = false → arguments.map Value.type = function.parameters

/-- Embedded functions fail in ways that are `ok`, apart from refusing their arguments. -/
def Registry.Answers (registry : Registry) (ok : Fault → Prop) : Prop :=
  ∀ function ∈ registry.functions, ∀ arguments, function.Accepts arguments →
    ∀ fault, (function.behavior arguments).result = .error (.escaped fault) → ok fault

section
variable {function : Embedded} {position : Position} {index : Nat}

/-- Checking one argument: an error of the program, a type that is missing, or the next argument. -/
theorem checkArguments_cons (function : Embedded) (position : Position) (index : Nat)
    (value : Value) (rest : List Value) :
    (∃ cause, checkArguments function position (index + 1) (value :: rest) =
      .error (.semantic position cause)) ∨
    (function.variadic = false ∧ function.parameters[index]? = none ∧
      checkArguments function position (index + 1) (value :: rest) = .error .missingItem) ∨
    (value.type ≠ .void ∧
      (function.variadic = false → function.parameters[index]? = some value.type) ∧
      checkArguments function position (index + 1) (value :: rest) =
        checkArguments function position (index + 1 + 1) rest) := by
  rw [checkArguments]
  by_cases hvoid : value.type = .void
  · rw [if_pos hvoid]
    exact .inl ⟨_, rfl⟩
  rw [if_neg hvoid]
  cases hvariadic : function.variadic with
  | true => exact .inr (.inr ⟨hvoid, nofun, rfl⟩)
  | false =>
    rw [if_pos Bool.not_false, Nat.add_sub_cancel]
    cases hexpected : function.parameters[index]? with
    | none => exact .inr (.inl ⟨rfl, rfl, rfl⟩)
    | some expected =>
      simp only [checkArgument]
      by_cases htype : value.type = expected
      · rw [if_pos htype]
        exact .inr (.inr ⟨hvoid, fun _ => congrArg some htype.symm, rfl⟩)
      · rw [if_neg htype]
        exact .inl ⟨_, rfl⟩

/-- Arguments that were checked have the types of the parameters, from one index on. -/
theorem checkArguments_ok {values : List Value}
    (h : checkArguments function position (index + 1) values = .ok ()) :
    (∀ value ∈ values, value.type ≠ .void) ∧
      (function.variadic = false → index + values.length = function.parameters.length →
        values.map Value.type = function.parameters.drop index) := by
  induction values generalizing index with
  | nil =>
    refine ⟨by simp, fun _ hlength => ?_⟩
    exact (List.drop_eq_nil_of_le (Nat.le_of_eq hlength.symm)).symm
  | cons value rest ih =>
    rcases checkArguments_cons function position index value rest with
      ⟨cause, herror⟩ | ⟨-, -, herror⟩ | ⟨hvoid, htype, hnext⟩
    · rw [herror] at h
      cases h
    · rw [herror] at h
      cases h
    · rw [hnext] at h
      obtain ⟨hrest, htypes⟩ := ih h
      refine ⟨List.forall_mem_cons.2 ⟨hvoid, hrest⟩, fun hvariadic hlength => ?_⟩
      rw [List.length_cons] at hlength
      obtain ⟨hlt, heq⟩ := List.getElem?_eq_some_iff.1 (htype hvariadic)
      rw [List.map_cons, htypes hvariadic (by omega), List.drop_eq_getElem_cons hlt, heq]

/-- With no more arguments than parameters, no type is missing. -/
theorem checkArguments_error {values : List Value} {fault : Fault}
    (hcount : function.variadic = false → index + values.length ≤ function.parameters.length)
    (h : checkArguments function position (index + 1) values = .error fault) :
    ∃ cause, fault = .semantic position cause := by
  induction values generalizing index with
  | nil => cases h
  | cons value rest ih =>
    rcases checkArguments_cons function position index value rest with
      ⟨cause, herror⟩ | ⟨hvariadic, hnone, -⟩ | ⟨-, -, hnext⟩
    · rw [herror] at h
      exact ⟨cause, (Except.error.inj h).symm⟩
    · have hcount := hcount hvariadic
      rw [List.length_cons] at hcount
      rw [List.getElem?_eq_none_iff] at hnone
      omega
    · rw [hnext] at h
      refine ih (fun hvariadic => ?_) h
      have hcount := hcount hvariadic
      rw [List.length_cons] at hcount
      omega

end

/-! ## Calls and expressions -/

/-- What the evaluation of a tree rests on, if faults that are `ok` are to be its only ones. -/
structure Supports (ok : Fault → Prop) (setting : Setting) (invoke : Invoke) : Prop where
  diagnostic : ∀ d, ok (.diagnostic d)
  tooManyDigits : ∀ digits, ok (.tooManyDigits digits)
  embedded : setting.registry.Answers ok
  /-- Calls leave the scopes as they are. -/
  calls : ∀ function arguments position known,
    (still known).Follows ok (fun _ => True) (invoke function arguments position)

/-- Names can be read in a scope. -/
def Readable (ok : Fault → Prop) (arena : Arena) (scope : Option Nat) : Prop :=
  ∀ name position fault, arena.valueOf scope name position = .error fault → ok fault

section
variable {ok : Fault → Prop} {setting : Setting} {invoke : Invoke} (h : Supports ok setting invoke)
  {D : Discipline}
include h

/-- Errors of the program are `ok`. -/
theorem Supports.semantic {fault : Fault} {position : Position}
    (hfault : ∃ cause, fault = .semantic position cause) : ok fault := by
  obtain ⟨cause, rfl⟩ := hfault
  exact h.diagnostic _

theorem Supports.raise {α : Type} {post : α → Prop} {position : Position}
    {cause : Diagnostic.Cause} : D.Follows ok post (Eval.raise position cause) :=
  .fail (h.diagnostic _)

/-- Behind a check, there are as many arguments as parameters. -/
theorem Supports.checkCount {name : String} {expected provided : Nat} {position : Position} :
    D.Follows ok (fun _ => expected = provided)
      (Evaluation.checkCount name expected provided position) := by
  rw [Evaluation.checkCount]
  exact .ite (fun heq => .pure heq) fun _ => h.raise

/-- A call of an embedded function with as many arguments as it takes. -/
theorem Supports.callEmbedded {function : Embedded} (hmem : function ∈ setting.registry.functions)
    {arguments : List Value} (position : Position)
    (hcount : function.variadic = false → arguments.length = function.parameters.length) :
    D.Follows ok (fun _ => True) (Evaluation.callEmbedded function arguments position) := by
  have hcheck : D.Follows ok (fun _ => function.Accepts arguments)
      (ofExcept (checkArguments function position 1 arguments)) := by
    refine .ofExcept (fun _ hok => ?_) fun fault herror => ?_
    · obtain ⟨hvoid, htypes⟩ := checkArguments_ok hok
      exact ⟨hvoid, fun hvariadic => htypes hvariadic (by rw [hcount hvariadic, Nat.zero_add])⟩
    · refine h.semantic (checkArguments_error (fun hvariadic => ?_) herror)
      exact Nat.le_of_eq (by rw [hcount hvariadic, Nat.zero_add])
  refine hcheck.bind fun _ haccepts => ?_
  have hemit : D.Follows ok (fun _ => True) (emit (function.behavior arguments).printed) :=
    .of_eq fun _ => ⟨rfl, rfl, trivial⟩
  refine hemit.bind fun _ _ => ?_
  cases hreply : (function.behavior arguments).result with
  | ok value => exact .pure trivial
  | error failure =>
    cases failure with
    | refused details => exact h.raise
    | escaped fault => exact .fail (h.embedded function hmem arguments haccepts fault hreply)

variable {known : Arena → Option Nat → Prop}

/-- A call checks the number of arguments before it evaluates them, so no function is given too
few. -/
theorem Supports.callNamed (position : Position) (name : String) {count : Nat}
    {arguments : Eval (List Value)}
    (harguments : (still known).Follows ok (fun values => values.length = count) arguments) :
    (still known).Follows ok (fun _ => True)
      (Evaluation.callNamed setting invoke position name count arguments) := by
  rw [Evaluation.callNamed]
  cases setting.program.find? name with
  | some function =>
    refine h.checkCount.bind fun _ _ => harguments.bind fun values _ => ?_
    exact h.calls function values position known
  | none =>
    cases hfound : setting.registry.find? name with
    | none => exact h.raise
    | some function =>
      have hmem : function ∈ setting.registry.functions := List.mem_of_find?_eq_some hfound
      -- only a function of a fixed number of parameters counts its arguments, and only that one
      -- needs the count
      cases hvariadic : function.variadic with
      | true =>
        have harity : function.arity = none := if_pos hvariadic
        simp only [harity]
        refine harguments.bind fun values _ => h.callEmbedded hmem position ?_
        rw [hvariadic]
        exact nofun
      | false =>
        have harity : function.arity = some function.parameters.length :=
          if_neg (by rw [hvariadic]; exact Bool.false_ne_true)
        simp only [harity]
        refine h.checkCount.bind fun _ hcount => harguments.bind fun values hlength => ?_
        exact h.callEmbedded hmem position fun _ => hlength.trans hcount.symm

theorem Supports.logicalOperand (op : Logical) (position : Position) (value : Value) :
    D.Follows ok (fun _ => True) (Evaluation.logicalOperand op position value) := by
  cases value with
  | bool b => exact .pure trivial
  | _ => exact h.raise

/-- The second operand is evaluated only if the first one does not decide. -/
theorem Supports.logical (op : Logical) (position : Position) {left right : Eval Value}
    (hleft : D.Follows ok (fun _ => True) left) (hright : D.Follows ok (fun _ => True) right) :
    D.Follows ok (fun _ => True) (Evaluation.logical op position left right) := by
  refine hleft.bind fun value _ => (h.logicalOperand op position value).bind fun first _ => ?_
  have hsecond : D.Follows ok (fun _ => True)
      (do return Value.bool (← Evaluation.logicalOperand op position (← right))) :=
    hright.bind fun value _ => (h.logicalOperand op position value).bind fun _ _ => .pure trivial
  cases op <;> cases first <;> first | exact .pure trivial | exact hsecond

end

section
variable {ok : Fault → Prop} {setting : Setting} {invoke : Invoke}

mutual

/-- **Expressions leave the scopes as they are.** -/
theorem evaluate_follows (h : Supports ok setting invoke) : ∀ e : Expression,
    (still (Readable ok)).Follows ok (fun _ => True) (evaluate setting invoke e)
  | .literal _ value => by
    rw [evaluate]
    exact .pure trivial
  | .variable position name => by
    rw [evaluate]
    exact .ask fun m hm fault hfault => hm name position fault hfault
  | .negate position operand => by
    rw [evaluate]
    refine (evaluate_follows h operand).bind fun value _ => ?_
    exact .ofExcept (fun _ _ => trivial) fun fault hfault =>
      h.semantic (Value.negate_error hfault)
  | .cast position operand target => by
    rw [evaluate]
    refine (evaluate_follows h operand).bind fun value _ => ?_
    refine .ofExcept (fun _ _ => trivial) fun fault hfault => ?_
    rcases Value.cast_error hfault with hcause | rfl
    · exact h.semantic hcause
    · exact h.tooManyDigits _
  | .binary position (.logical op) left right => by
    rw [evaluate]
    exact h.logical op position (evaluate_follows h left) (evaluate_follows h right)
  | .binary position (.relation op) left right => by
    rw [evaluate]
    refine (evaluate_follows h left).bind fun a _ => (evaluate_follows h right).bind fun b _ => ?_
    have hrelate : (still (Readable ok)).Follows ok (fun _ => True)
        (ofExcept (Value.relate op a b position)) :=
      .ofExcept (fun _ _ => trivial) fun fault hfault => h.semantic (Value.relate_error hfault)
    exact hrelate.bind fun _ _ => .pure trivial
  | .binary position (.arithmetic op) left right => by
    rw [evaluate]
    refine (evaluate_follows h left).bind fun a _ => (evaluate_follows h right).bind fun b _ => ?_
    exact .ofExcept (fun _ _ => trivial) fun fault hfault =>
      h.semantic (Value.calculate_error hfault)
  | .call position name arguments => by
    rw [evaluate]
    exact h.callNamed position name (evaluateAll_follows h arguments)

/-- Expressions have as many values as there are of them. -/
theorem evaluateAll_follows (h : Supports ok setting invoke) : ∀ es : List Expression,
    (still (Readable ok)).Follows ok (fun values => values.length = es.length)
      (evaluateAll setting invoke es)
  | [] => by
    rw [evaluateAll]
    exact .pure rfl
  | first :: rest => by
    rw [evaluateAll]
    refine (evaluate_follows h first).bind fun value _ => ?_
    refine (evaluateAll_follows h rest).bind fun values hvalues => ?_
    exact .pure (congrArg Nat.succ hvalues)

end

end

/-! ## Statements -/

section
variable {ok : Fault → Prop} {setting : Setting} {invoke : Invoke} (h : Supports ok setting invoke)
  {base : Nat}
include h

/-- Names can be read inside a region. -/
theorem Supports.readable {arena : Arena} {index : Nat} (hregion : arena.Region base index) :
    Readable ok arena (some index) := by
  intro name position fault hfault
  rcases hregion.valueOf_cases name position with ⟨value, hok⟩ | ⟨cause, herror⟩
  · rw [hok] at hfault
    cases hfault
  · rw [herror] at hfault
    exact h.semantic ⟨cause, (Except.error.inj hfault).symm⟩

/-- Inside a region names can be read, so expressions can be evaluated there. -/
theorem Supports.evaluate (e : Expression) :
    (within base).Follows ok (fun _ => True) (Evaluation.evaluate setting invoke e) :=
  (evaluate_follows h e).within fun _ _ => h.readable

/-- A declaration inside a region changes its variables, or is refused with an error of the
program. -/
theorem Supports.declare (name : String) (value : Value) (type : ValueType)
    (position : Position) :
    (within base).Follows ok (fun _ => True) (Eval.declare name value type position) := by
  refine follows_updateArena fun arena index hregion => ?_
  refine (hregion.declare_cases name position value type).imp id ?_
  rintro ⟨cause, herror⟩
  exact ⟨_, herror, h.diagnostic _⟩

/-- An assignment inside a region changes its variables, or is refused with an error of the
program. -/
theorem Supports.assign (name : String) (value : Value) (position : Position) :
    (within base).Follows ok (fun _ => True) (Eval.assign name value position) := by
  refine follows_updateArena fun arena index hregion => ?_
  refine (hregion.assign_cases name position value).imp id ?_
  rintro ⟨cause, herror⟩
  exact ⟨_, herror, h.diagnostic _⟩

/-- Inside a region the call has a return type, so the question for it cannot fail. -/
theorem Supports.giveBack (value : Value) (position : Position) :
    (within base).Follows ok (fun _ => True) (Eval.giveBack value position) := by
  have hexpected : (within base).Follows ok (fun _ => True)
      (ask fun m => m.arena.returnTypeOf m.scope) := by
    refine .ask ?_
    rintro m ⟨index, hindex, hregion⟩ fault hfault
    obtain ⟨type, htype⟩ := hregion.returnTypeOf_eq_ok
    rw [hindex, htype] at hfault
    cases hfault
  refine hexpected.bind fun expected _ => ?_
  exact .ite (fun _ => .of_eq fun _ => ⟨rfl, rfl, trivial⟩) fun _ => h.raise

/-- A condition that is no truth value is an error of the program. -/
theorem Supports.condition (construct : String) (e : Expression) :
    (within base).Follows ok (fun _ => True)
      (Evaluation.condition setting invoke construct e) := by
  refine (h.evaluate e).bind fun value _ => ?_
  cases value with
  | bool b => exact .pure trivial
  | _ => exact h.raise

theorem Supports.declareVariable (d : Declaration) :
    (within base).Follows ok (fun _ => True) (Evaluation.declareVariable setting invoke d) :=
  (h.evaluate d.initializer).bind fun value _ => h.declare d.name value d.type d.position

/-- Guards are declared one after the other. -/
theorem Supports.declareVariables (ds : List Declaration) :
    (within base).Follows ok (fun _ => True) (Evaluation.declareVariables setting invoke ds) := by
  induction ds with
  | nil => exact .pure trivial
  | cons d ds ih => exact (h.declareVariable d).bind fun _ _ => ih

/-- The subject of a choice is evaluated, or read from its only guard. -/
theorem Supports.choiceSubject (guards : List Declaration) (subject : Option Expression) :
    (within base).Follows ok (fun _ => True)
      (Evaluation.choiceSubject setting invoke guards subject) := by
  have hread : ∀ d : Declaration,
      (within base).Follows ok (fun _ => True) (readVariable d.name d.position) := by
    intro d
    refine .ask ?_
    rintro m ⟨index, hindex, hregion⟩ fault hfault
    exact h.readable hregion d.name d.position fault (hindex ▸ hfault)
  unfold Evaluation.choiceSubject
  split
  · exact (h.evaluate _).map fun _ => id
  · exact (hread _).map fun _ => id
  · exact .pure trivial

theorem Supports.relate (op : Relation) (left right : Value) (position : Position) :
    (within base).Follows ok (fun _ => True) (ofExcept (Value.relate op left right position)) :=
  .ofExcept (fun _ _ => trivial) fun _ hfault => h.semantic (Value.relate_error hfault)

/-- A test compares its value with the subject or is a condition itself. -/
theorem Supports.testSucceeds (subject : Option Value) (position : Position)
    (relation : Option Relation) (e : Expression) :
    (within base).Follows ok (fun _ => True)
      (Evaluation.testSucceeds setting invoke subject position relation e) := by
  unfold Evaluation.testSucceeds
  split
  · exact h.raise
  · exact (h.evaluate e).bind fun compared _ => h.relate _ _ compared position
  · exact (h.evaluate e).bind fun compared _ => h.relate _ _ compared position
  · exact h.condition _ e

end

section
variable {ok : Fault → Prop} {setting : Setting} {invoke : Invoke} {base bound : Nat}

mutual

/-- **Statements change variables of their region only.** -/
theorem execute_follows (h : Supports ok setting invoke) : ∀ s : Statement,
    (within base).Follows ok (fun _ => True) (execute setting invoke bound s)
  | .declaration d => by
    rw [execute]
    exact h.declareVariable d
  | .assignment position name value => by
    rw [execute]
    exact (h.evaluate value).bind fun assigned _ => h.assign name assigned position
  | .conditional _ test thenBlock none => by
    rw [execute]
    refine (h.condition "if" test).bind fun holds _ => ?_
    cases holds with
    | true => exact executeBlock_follows h thenBlock
    | false => exact .pure trivial
  | .conditional _ test thenBlock (some elseBlock) => by
    rw [execute]
    refine (h.condition "if" test).bind fun holds _ => ?_
    cases holds with
    | true => exact executeBlock_follows h thenBlock
    | false => exact executeBlock_follows h elseBlock
  | .loop _ test (.mk _ statements) => by
    rw [execute]
    -- the scope of a loop is in the region, and so is what its rounds declare
    exact follows_withScope
      (.iterate (h.condition "while" test) (executeAll_follows h statements) bound)
  | .choice _ guards subject arms => by
    rw [execute]
    split
    · exact h.raise
    · refine follows_withScope ?_
      refine (h.declareVariables guards).bind fun _ _ => ?_
      refine (h.choiceSubject guards subject).bind fun value _ => ?_
      refine (executeFirstMatch_follows h value arms).bind fun found _ => ?_
      cases found with
      | true => exact .pure trivial
      | false => exact executeFallback_follows h arms
  | .giveBack position none => by
    rw [execute]
    exact h.giveBack .void position
  | .giveBack position (some e) => by
    rw [execute]
    exact (h.evaluate e).bind fun value _ => h.giveBack value position
  | .call position name arguments => by
    rw [execute]
    -- the call works in a region of its own, above this one
    have hcall : (within base).Follows ok (fun _ => True)
        (callNamed setting invoke position name arguments.length
          (evaluateAll setting invoke arguments)) :=
      (h.callNamed position name (evaluateAll_follows h arguments)).within fun _ _ => h.readable
    exact hcall.bind fun _ _ => .pure trivial

/-- A block opens a scope inside the region and closes it again. -/
theorem executeBlock_follows (h : Supports ok setting invoke) : ∀ b : Block,
    (within base).Follows ok (fun _ => True) (executeBlock setting invoke bound b)
  | .mk _ statements => by
    rw [executeBlock]
    exact follows_withScope (executeAll_follows h statements)

/-- Statements are executed until one of them returns. -/
theorem executeAll_follows (h : Supports ok setting invoke) : ∀ ss : List Statement,
    (within base).Follows ok (fun _ => True) (executeAll setting invoke bound ss)
  | [] => by
    rw [executeAll]
    exact .pure trivial
  | first :: rest => by
    rw [executeAll]
    refine (execute_follows h first).bind fun _ _ => ?_
    refine Discipline.Follows.isReturning.bind fun returning _ => ?_
    cases returning with
    | true => exact .pure trivial
    | false => exact executeAll_follows h rest

/-- Tests are made until one succeeds, and then what that case says is done. -/
theorem executeFirstMatch_follows (h : Supports ok setting invoke) (subject : Option Value) :
    ∀ arms : List Case,
    (within base).Follows ok (fun _ => True) (executeFirstMatch setting invoke bound subject arms)
  | [] => by
    rw [executeFirstMatch]
    exact .pure trivial
  | .fallback _ _ :: rest => by
    rw [executeFirstMatch]
    exact executeFirstMatch_follows h subject rest
  | .test position relation value output :: rest => by
    rw [executeFirstMatch]
    refine (h.testSucceeds subject position relation value).bind fun succeeds _ => ?_
    cases succeeds with
    | true => exact (executeOutput_follows h output).bind fun _ _ => .pure trivial
    | false => exact executeFirstMatch_follows h subject rest

/-- The default case is found behind the others, if there is one. -/
theorem executeFallback_follows (h : Supports ok setting invoke) : ∀ arms : List Case,
    (within base).Follows ok (fun _ => True) (executeFallback setting invoke bound arms)
  | [] => by
    rw [executeFallback]
    exact .pure trivial
  | .fallback _ output :: _ => by
    rw [executeFallback]
    exact executeOutput_follows h output
  | .test .. :: rest => by
    rw [executeFallback]
    exact executeFallback_follows h rest

/-- What a case says is a block, or an expression whose value is given back. -/
theorem executeOutput_follows (h : Supports ok setting invoke) : ∀ output : CaseOutput,
    (within base).Follows ok (fun _ => True) (executeOutput setting invoke bound output)
  | .block block => by
    rw [executeOutput]
    exact executeBlock_follows h block
  | .expression e => by
    rw [executeOutput]
    refine (h.evaluate e).bind fun value _ => ?_
    exact .ite (fun _ => .pure trivial) fun _ => h.giveBack value e.position

end

end

/-! ## Calls -/

section
variable {ok : Fault → Prop} {setting : Setting}

/-- Arguments are checked and declared one after the other. -/
theorem Supports.bindParameters {invoke : Invoke} (h : Supports ok setting invoke) {base : Nat}
    (name : String) (position : Position) (parameters : List Parameter) :
    ∀ (index : Nat) (values : List Value), (within base).Follows ok (fun _ => True)
      (Evaluation.bindParameters name position index parameters values) := by
  induction parameters with
  | nil => exact fun _ _ => .pure trivial
  | cons parameter parameters ih =>
    intro index values
    cases values with
    | nil => exact .pure trivial
    | cons value values =>
      have hcheck : (within base).Follows ok (fun _ => True)
          (ofExcept (checkArgument name index parameter.type value position)) :=
        .ofExcept (fun _ _ => trivial) fun _ hfault => h.semantic (checkArgument_error hfault)
      refine hcheck.bind fun _ _ => ?_
      refine (h.declare parameter.name value parameter.type parameter.position).bind fun _ _ => ?_
      exact ih (index + 1) values

/-- A call that has to return a value and did not is an error of the program. -/
theorem Supports.finishCall {invoke : Invoke} (h : Supports ok setting invoke)
    {D : Discipline} (function : Function) :
    D.Follows ok (fun _ => True) (Evaluation.finishCall function) := by
  refine Discipline.Follows.isReturning.bind fun returning _ => ?_
  exact .ite (fun _ => h.raise) fun _ => .takeReturned

/-- **Calls leave the scopes as they are**, however deep they are nested. -/
theorem invoke_follows (hdiagnostic : ∀ d, ok (.diagnostic d))
    (hdigits : ∀ digits, ok (.tooManyDigits digits)) (hembedded : setting.registry.Answers ok)
    (bound : Nat) : Supports ok setting (invoke setting bound) := by
  induction bound with
  | zero => exact ⟨hdiagnostic, hdigits, hembedded, fun _ _ _ _ => .exhausted⟩
  | succ bound ih =>
    refine ⟨hdiagnostic, hdigits, hembedded, fun function arguments position known => ?_⟩
    have hdepth : (still known).Follows ok (fun _ => True)
        (ask fun m => .ok (m.calls.depth function.name)) := by
      refine .ask ?_
      rintro m - fault hfault
      cases hfault
    rw [invoke]
    refine hdepth.bind fun depth _ => .ite (fun _ => ih.raise) fun _ => ?_
    refine .whileActive ?_
    -- the body stays within the region that its call opens
    have hbody : (still known).Follows ok (fun _ => True)
        (withScope (some function.returnType) do
          bindParameters function.name position 1 function.parameters arguments
          executeAll setting (invoke setting bound) bound function.body.statements) := by
      refine follows_call fun base => ?_
      refine (ih.bindParameters function.name position function.parameters 1 arguments).bind
        fun _ _ => ?_
      exact executeAll_follows ih function.body.statements
    exact hbody.bind fun _ _ => ih.finishCall function

end

/-- **Expressions never touch variables.** After the evaluation of an expression, however it ends,
the open scopes are what they were: their parents, what they return and their variables with their
values, types and positions. The current scope is the same too. Calls in the expression, of any
depth, may declare, assign, loop, return or fail. -/
theorem evaluate_scopes (setting : Setting) (bound : Nat) (e : Expression) (m : Machine) :
    (evaluate setting (invoke setting bound) e m).2.arena = m.arena ∧
      (evaluate setting (invoke setting bound) e m).2.scope = m.scope := by
  have hsupports : Supports (fun _ => True) setting (invoke setting bound) :=
    invoke_follows (fun _ => trivial) (fun _ => trivial) (fun _ _ _ _ _ _ => trivial) bound
  exact (evaluate_follows hsupports e m fun _ _ _ _ => trivial).1

end FLang
