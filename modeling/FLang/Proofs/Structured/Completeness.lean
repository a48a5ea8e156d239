import FLang.Proofs.Structured.Soundness
import Mathlib.Order.Filter.AtTopBot.Basic

/-!
# What the rules allow, the evaluator does

A derivation by the rules is finite, so some bound on loops and calls is enough for it, and every
larger one is too. Both directions together say that the evaluator, which leaves the value of a
`return` in the machine and asks for it after each statement, does what the rules say.

* `Evaluates.complete`, `Executes.complete`, … — by induction on derivations: with every large
  bound, the evaluator ends as a derivation says;
* `Executes.unique` — so a statement ends in only one way;
* `structured_returns` — the evaluator and the rules agree.
-/

namespace FLang

open Eval Evaluation
open Filter (atTop eventually_map eventually_ge_atTop map_add_atTop_eq_nat)

/-- What is true of the successors of all large bounds is true of all large bounds. -/
theorem eventually_of_succ {p : Nat → Prop} (h : ∀ᶠ bound in atTop, p (bound + 1)) :
    ∀ᶠ bound in atTop, p bound := by
  rw [← map_add_atTop_eq_nat 1]
  exact eventually_map.mpr h

theorem Completion.outcome_ne_exhausted (c : Completion) : c.outcome ≠ .exhausted := by
  cases c <;> exact nofun

section
variable {setting : Setting} {bound : Nat} {σ σ' : Store}

/-- A condition gives the truth of a value that is known. -/
theorem condition_apply (construct : String) {e : Expression} {r : Except Fault Value}
    (h : evaluate setting (invoke setting bound) e (σ.machine none) =
      (.ofExcept r, σ'.machine none)) :
    condition setting (invoke setting bound) construct e (σ.machine none) =
      (.ofExcept (r.bind (Value.truth construct e.position)), σ'.machine none) := by
  rw [condition_eq]
  exact Eval.bind_ofExcept h _

theorem testSucceeds_apply {subject : Option Value} {relation : Option Relation}
    {position : Position} {e : Expression} {r : Except Fault Value} {b : Except Fault Bool}
    (hsubject : relation.isSome → subject.isSome)
    (h : evaluate setting (invoke setting bound) e (σ.machine none) =
      (.ofExcept r, σ'.machine none))
    (happlies : r.bind (caseApplies subject relation position e) = b) :
    testSucceeds setting (invoke setting bound) subject position relation e (σ.machine none) =
      (.ofExcept b, σ'.machine none) := by
  rw [testSucceeds_eq _ _ hsubject, ← happlies]
  exact Eval.bind_ofExcept h _

/-- Statements that declare variables do nothing else, as none of them returns. -/
theorem declareVariables_apply {ds : List Declaration} {c : Completion}
    (h : executeAll setting (invoke setting bound) bound (ds.map .declaration) (σ.machine none) =
      (c.outcome, σ'.machine c.pending)) :
    declareVariables setting (invoke setting bound) ds (σ.machine none) =
      (c.outcome, σ'.machine c.pending) := by
  induction ds generalizing σ with
  | nil =>
    rw [List.map_nil, executeAll] at h
    exact h
  | cons d ds ih =>
    rw [List.map_cons, executeAll, execute] at h
    have hended : (declareVariable setting (invoke setting bound) d (σ.machine none)).1 ≠
        .exhausted := by
      apply Eval.ended_of_bind
      rw [h]
      exact c.outcome_ne_exhausted
    obtain ⟨fault | _, σ₁, -, heq⟩ := declareVariable_sound (invoke_sound setting bound) d σ hended
    · rw [Eval.bind_of_fault heq] at h
      exact (Eval.bind_of_fault heq).trans h
    · rw [Eval.bind_of_value heq] at h
      exact (Eval.bind_of_value heq).trans (ih h)

end

/-! ## Derivations -/

section
variable {setting : Setting}

mutual

/-- **An expression is evaluated as a derivation says**, with every large bound. -/
theorem Evaluates.complete : ∀ {e : Expression} {σ : Store} {r : Except Fault Value} {σ' : Store},
    Evaluates setting e σ r σ' → ∀ᶠ bound in atTop,
      evaluate setting (invoke setting bound) e (σ.machine none) = (.ofExcept r, σ'.machine none)
  | _, _, _, _, .literal => .of_forall fun bound => by
    rw [evaluate]
    rfl
  | _, _, _, _, .variable => .of_forall fun bound => by
    rw [evaluate]
    exact Eval.ofExcept_apply _ _
  | _, _, _, _, .negate h => by
    filter_upwards [h.complete] with bound hoperand
    rw [evaluate]
    exact Eval.bind_ofExcept hoperand _
  | _, _, _, _, .cast h => by
    filter_upwards [h.complete] with bound hoperand
    rw [evaluate]
    exact Eval.bind_ofExcept hoperand _
  -- one rule for every operator, but three equations of the evaluator
  | .binary _ (.logical _) _ _, _, _, _, .leftFault h => by
    filter_upwards [h.complete] with bound hleft
    rw [evaluate]
    exact Eval.bind_of_fault hleft
  | .binary _ (.relation _) _ _, _, _, _, .leftFault h => by
    filter_upwards [h.complete] with bound hleft
    rw [evaluate]
    exact Eval.bind_of_fault hleft
  | .binary _ (.arithmetic _) _ _, _, _, _, .leftFault h => by
    filter_upwards [h.complete] with bound hleft
    rw [evaluate]
    exact Eval.bind_of_fault hleft
  | _, _, _, _, .relation h h' => by
    filter_upwards [h.complete, h'.complete] with bound hleft hright
    rw [evaluate, Eval.bind_of_value hleft]
    simp only [Eval.ofExcept_bind_pure]
    exact Eval.bind_ofExcept hright _
  | _, _, _, _, .arithmetic h h' => by
    filter_upwards [h.complete, h'.complete] with bound hleft hright
    rw [evaluate, Eval.bind_of_value hleft]
    exact Eval.bind_ofExcept hright _
  | _, _, _, _, .operandFault h hoperand => by
    filter_upwards [h.complete] with bound hleft
    rw [evaluate, logical_eq, Eval.bind_of_value hleft, hoperand]
    rfl
  | _, _, _, _, .decided h => by
    filter_upwards [h.complete] with bound hleft
    rw [evaluate, logical_eq, Eval.bind_of_value hleft, Logical.operand, Eval.ofExcept_ok_bind,
      if_pos rfl]
    rfl
  | .binary _ (.logical op) _ _, _, _, _, .undecided h h' => by
    filter_upwards [h.complete, h'.complete] with bound hleft hright
    rw [evaluate, logical_eq, Eval.bind_of_value hleft, Logical.operand, Eval.ofExcept_ok_bind,
      if_neg (Bool.not_ne_self op.decisive)]
    exact Eval.bind_ofExcept hright _
  | _, _, _, _, .unknown hcallee => .of_forall fun bound => by
    rw [evaluate, callNamed_eq, hcallee]
    rfl
  | _, _, _, _, .argumentFault hcallee h => by
    filter_upwards [h.complete] with bound hvalues
    rw [evaluate, callNamed_eq, hcallee, Eval.ofExcept_ok_bind]
    exact Eval.bind_of_fault hvalues
  | _, _, _, _, .embedded hcallee h => by
    filter_upwards [h.complete] with bound hvalues
    rw [evaluate, callNamed_eq, hcallee, Eval.ofExcept_ok_bind, Eval.bind_of_value hvalues]
    exact callEmbedded_machine _ _ _ _
  | _, _, _, _, .declared hcallee h h' => by
    filter_upwards [h.complete, h'.complete] with bound hvalues hcall
    rw [evaluate, callNamed_eq, hcallee, Eval.ofExcept_ok_bind, Eval.bind_of_value hvalues]
    exact hcall

/-- Arguments are evaluated as derived, from some bound on. -/
theorem EvaluatesAll.complete : ∀ {es : List Expression} {σ : Store}
    {r : Except Fault (List Value)} {σ' : Store}, EvaluatesAll setting es σ r σ' →
    ∀ᶠ bound in atTop, evaluateAll setting (invoke setting bound) es (σ.machine none) =
      (.ofExcept r, σ'.machine none)
  | _, _, _, _, .nil => .of_forall fun bound => by
    rw [evaluateAll]
    rfl
  | _, _, _, _, .firstFault h => by
    filter_upwards [h.complete] with bound hfirst
    rw [evaluateAll]
    exact Eval.bind_of_fault hfirst
  | _, _, _, _, .cons h h' => by
    filter_upwards [h.complete, h'.complete] with bound hfirst hrest
    rw [evaluateAll, Eval.bind_of_value hfirst]
    exact Eval.bind_pure_apply hrest _

/-- **A call is made as a derivation says.** -/
theorem Calls.complete : ∀ {function : Function} {values : List Value} {position : Position}
    {σ : Store} {r : Except Fault Value} {σ' : Store},
    Calls setting function values position σ r σ' → ∀ᶠ bound in atTop,
      invoke setting bound function values position (σ.machine none) =
        (.ofExcept r, σ'.machine none)
  | _, _, _, _, _, _, .refused hdepth =>
    eventually_of_succ (.of_forall fun _ => invoke_refused hdepth)
  | _, _, _, _, _, _, .badArgument hdepth hbind =>
    eventually_of_succ (.of_forall fun _ => invoke_machine hdepth (enter_failed hbind))
  | _, _, _, _, _, _, .completed hdepth hbind h => by
    -- a call needs one more than its body
    apply eventually_of_succ
    filter_upwards [h.complete] with bound hbody
    exact invoke_machine hdepth ((enter_bound hbind).trans hbody)

/-- **A statement is executed as a derivation says.** -/
theorem Executes.complete : ∀ {s : Statement} {σ : Store} {c : Completion} {σ' : Store},
    Executes setting s σ c σ' → ∀ᶠ bound in atTop,
      execute setting (invoke setting bound) bound s (σ.machine none) =
        (c.outcome, σ'.machine c.pending)
  | _, _, _, _, .initializerFault h => by
    filter_upwards [h.complete] with bound hvalue
    rw [execute]
    exact Eval.bind_of_fault hvalue
  | _, _, _, _, .declaration h => by
    filter_upwards [h.complete] with bound hvalue
    rw [execute]
    exact (Eval.bind_of_value hvalue).trans (updateArena_completion _ _)
  | _, _, _, _, .valueFault h => by
    filter_upwards [h.complete] with bound hvalue
    rw [execute]
    exact Eval.bind_of_fault hvalue
  | _, _, _, _, .assignment h => by
    filter_upwards [h.complete] with bound hvalue
    rw [execute]
    exact (Eval.bind_of_value hvalue).trans (updateArena_completion _ _)
  -- a conditional is executed by one equation with a second block and by another without, so both
  -- are needed here
  | .conditional _ _ _ none, _, _, _, .conditionFault h htruth => by
    filter_upwards [h.complete] with bound htest
    have hcondition := condition_apply "if" htest
    rw [htruth] at hcondition
    rw [execute]
    exact Eval.bind_of_fault hcondition
  | .conditional _ _ _ (some _), _, _, _, .conditionFault h htruth => by
    filter_upwards [h.complete] with bound htest
    have hcondition := condition_apply "if" htest
    rw [htruth] at hcondition
    rw [execute]
    exact Eval.bind_of_fault hcondition
  | .conditional _ _ _ none, _, _, _, .thenBlock h h' => by
    filter_upwards [h.complete, h'.complete] with bound htest hblock
    rw [execute, Eval.bind_of_value (condition_apply _ htest)]
    exact hblock
  | .conditional _ _ _ (some _), _, _, _, .thenBlock h h' => by
    filter_upwards [h.complete, h'.complete] with bound htest hblock
    rw [execute, Eval.bind_of_value (condition_apply _ htest)]
    exact hblock
  | _, _, _, _, .elseBlock h h' => by
    filter_upwards [h.complete, h'.complete] with bound htest hblock
    rw [execute, Eval.bind_of_value (condition_apply _ htest)]
    exact hblock
  | _, _, _, _, .noElse h => by
    filter_upwards [h.complete] with bound htest
    rw [execute, Eval.bind_of_value (condition_apply _ htest)]
    rfl
  | .loop position test (.mk place body), _, _, _, .loop h => by
    -- a loop needs two bounds: one for each round, and one for their number
    obtain ⟨turns, hturns⟩ := h.complete
    filter_upwards [hturns, eventually_ge_atTop turns] with bound hrepeats hbound
    have hlinked := linked_balance setting bound
    have hbalanced := balance_repeats bound (hlinked.condition "while" test)
      (hlinked.executeAll body)
    rw [execute]
    exact withScope_machine hbalanced (hrepeats bound hbound)
  | .choice position guards subject arms, _, _, _, .secondFallback hpositions =>
    .of_forall fun bound => by
      rw [execute, hpositions]
      rfl
  | .choice position guards subject arms, _, _, _, .choice hone h => by
    filter_upwards [h.complete] with bound hchooses
    have hlinked := linked_balance setting bound
    have hbalanced := hlinked.choose guards subject
      (fun value => hlinked.executeFirstMatch value arms) (hlinked.executeFallback arms)
    obtain ⟨first, second, rest, hpositions, _⟩ | ⟨_, hchoice⟩ := execute_choice setting
      (invoke setting bound) bound position guards subject arms
    · rw [hpositions] at hone
      simp at hone
    · rw [hchoice]
      exact withScope_machine hbalanced hchooses
  | _, _, _, _, .giveBackNone => .of_forall fun bound => by
    rw [execute]
    exact giveBack_machine _ _ _
  | _, _, _, _, .giveBackFault h => by
    filter_upwards [h.complete] with bound hvalue
    rw [execute]
    exact Eval.bind_of_fault hvalue
  | _, _, _, _, .giveBack h => by
    filter_upwards [h.complete] with bound hvalue
    rw [execute]
    exact (Eval.bind_of_value hvalue).trans (giveBack_machine _ _ _)
  | _, _, _, _, .call (r := r) h => by
    filter_upwards [h.complete] with bound hcall
    rw [evaluate] at hcall
    rw [execute]
    cases r with
    | error fault => exact Eval.bind_of_fault hcall
    | ok a => exact Eval.bind_of_value hcall

/-- A block is executed as derived, from some bound on. -/
theorem ExecutesBlock.complete : ∀ {b : Block} {σ : Store} {c : Completion} {σ' : Store},
    ExecutesBlock setting b σ c σ' → ∀ᶠ bound in atTop,
      executeBlock setting (invoke setting bound) bound b (σ.machine none) =
        (c.outcome, σ'.machine c.pending)
  | _, _, _, _, .block h => by
    filter_upwards [h.complete] with bound hss
    rw [executeBlock]
    exact withScope_machine ((linked_balance setting bound).executeAll _) hss

/-- Statements are executed as derived; the larger of two bounds serves for a sequence. -/
theorem ExecutesAll.complete : ∀ {ss : List Statement} {σ : Store} {c : Completion} {σ' : Store},
    ExecutesAll setting ss σ c σ' → ∀ᶠ bound in atTop,
      executeAll setting (invoke setting bound) bound ss (σ.machine none) =
        (c.outcome, σ'.machine c.pending)
  | _, _, _, _, .nil => .of_forall fun bound => by
    rw [executeAll]
    rfl
  | _, _, _, _, .next h h' => by
    filter_upwards [h.complete, h'.complete] with bound hfirst hrest
    rw [executeAll, Eval.unless_normal hfirst]
    exact hrest
  | _, _, _, _, .stop h hnormal => by
    filter_upwards [h.complete] with bound hfirst
    rw [executeAll]
    exact Eval.unless_ended hfirst hnormal

/-- A loop needs a bound that is larger than the number of its turns. -/
theorem Repeats.complete : ∀ {test : Expression} {body : List Statement} {σ : Store}
    {c : Completion} {σ' : Store}, Repeats setting test body σ c σ' →
    ∃ turns, ∀ᶠ bound in atTop, ∀ count, turns ≤ count →
      iterate (condition setting (invoke setting bound) "while" test)
        (executeAll setting (invoke setting bound) bound body) count (σ.machine none) =
        (c.outcome, σ'.machine c.pending)
  | _, _, _, _, _, .fault h htruth => by
    refine ⟨1, ?_⟩
    filter_upwards [h.complete] with bound htest count hcount
    obtain ⟨count, rfl⟩ := Nat.exists_eq_add_of_le' hcount
    have hcondition := condition_apply "while" htest
    rw [htruth] at hcondition
    rw [Eval.iterate_succ]
    exact Eval.bind_of_fault hcondition
  | _, _, _, _, _, .done h => by
    refine ⟨1, ?_⟩
    filter_upwards [h.complete] with bound htest count hcount
    obtain ⟨count, rfl⟩ := Nat.exists_eq_add_of_le' hcount
    rw [Eval.iterate_succ]
    exact Eval.bind_of_value (condition_apply _ htest)
  | _, _, _, _, _, .again h h' h'' => by
    obtain ⟨turns, hturns⟩ := h''.complete
    -- one turn more than the rest of the loop; the bound on calls stays the same meanwhile
    refine ⟨turns + 1, ?_⟩
    filter_upwards [h.complete, h'.complete, hturns] with bound htest hbody hrest count hcount
    obtain ⟨count, rfl⟩ := Nat.exists_eq_add_of_le' (Nat.le_of_add_left_le hcount)
    rw [Eval.iterate_succ, Eval.bind_of_value (condition_apply _ htest), if_pos rfl]
    exact (Eval.unless_normal hbody).trans (hrest count (Nat.le_of_succ_le_succ hcount))
  | _, _, _, _, _, .stop h h' hnormal => by
    refine ⟨1, ?_⟩
    filter_upwards [h.complete, h'.complete] with bound htest hbody count hcount
    obtain ⟨count, rfl⟩ := Nat.exists_eq_add_of_le' hcount
    rw [Eval.iterate_succ, Eval.bind_of_value (condition_apply _ htest), if_pos rfl]
    exact Eval.unless_ended hbody hnormal

/-- A choice is made as derived, from some bound on. -/
theorem Chooses.complete : ∀ {guards : List Declaration} {subject : Option Expression}
    {arms : List Case} {σ : Store} {c : Completion} {σ' : Store},
    Chooses setting guards subject arms σ c σ' → ∀ᶠ bound in atTop,
      choose setting (invoke setting bound) bound guards subject arms (σ.machine none) =
        (c.outcome, σ'.machine c.pending)
  | _, _, _, _, _, _, .guardFault h => by
    filter_upwards [h.complete] with bound hguards
    exact Eval.bind_of_fault (declareVariables_apply hguards)
  | _, _, _, _, _, _, .subjectFault h hsubject h' => by
    filter_upwards [h.complete, h'.complete] with bound hguards he
    rw [choose, Eval.bind_of_value (declareVariables_apply hguards), choiceSubject_eq]
    simp only [hsubject, bind_map_left]
    exact Eval.bind_of_fault he
  | _, _, _, _, _, _, .compared h hsubject h' h'' => by
    filter_upwards [h.complete, h'.complete, h''.complete] with bound hguards he hselect
    rw [choose, Eval.bind_of_value (declareVariables_apply hguards), choiceSubject_eq]
    simp only [hsubject, bind_map_left]
    exact (Eval.bind_of_value he).trans hselect
  | _, _, _, _, _, _, .tested h hsubject h' => by
    filter_upwards [h.complete, h'.complete] with bound hguards hselect
    rw [choose, Eval.bind_of_value (declareVariables_apply hguards), choiceSubject_eq]
    simp only [hsubject, pure_bind]
    exact hselect

/-- A case is selected as derived, from some bound on. -/
theorem Selects.complete : ∀ {all : List Case} {subject : Option Value} {arms : List Case}
    {σ : Store} {c : Completion} {σ' : Store},
    Selects setting all subject arms σ c σ' → ∀ᶠ bound in atTop,
      select setting (invoke setting bound) bound all subject arms (σ.machine none) =
        (c.outcome, σ'.machine c.pending)
  -- the default is looked for in the whole choice, after the last of the cases
  | _, _, _, _, _, _, .fallback hfallback h => by
    filter_upwards [h.complete] with bound houtput
    rw [select_nil]
    simp only [hfallback]
    exact houtput
  | _, _, _, _, _, _, .nothing hfallback => .of_forall fun bound => by
    rw [select_nil]
    simp only [hfallback]
    rfl
  | _, _, _, _, _, _, .skipped h => by
    filter_upwards [h.complete] with bound hrest
    rw [select_fallback]
    exact hrest
  | _, _, _, _, _, _, .noSubject => .of_forall fun bound => by
    rw [select_test]
    rfl
  | _, _, _, _, _, _, .testFault hsubject h happlies => by
    filter_upwards [h.complete] with bound htest
    rw [select_test]
    exact Eval.bind_of_fault (testSucceeds_apply hsubject htest happlies)
  | _, _, _, _, _, _, .applies hsubject h happlies h' => by
    filter_upwards [h.complete, h'.complete] with bound htest houtput
    rw [select_test, Eval.bind_of_value (testSucceeds_apply hsubject htest happlies)]
    exact houtput
  | _, _, _, _, _, _, .next hsubject h happlies h' => by
    filter_upwards [h.complete, h'.complete] with bound htest hrest
    rw [select_test, Eval.bind_of_value (testSucceeds_apply hsubject htest happlies)]
    exact hrest

/-- What a case does is done as derived, from some bound on. -/
theorem Produces.complete : ∀ {output : CaseOutput} {σ : Store} {c : Completion} {σ' : Store},
    Produces setting output σ c σ' → ∀ᶠ bound in atTop,
      executeOutput setting (invoke setting bound) bound output (σ.machine none) =
        (c.outcome, σ'.machine c.pending)
  | _, _, _, _, .block h => by
    filter_upwards [h.complete] with bound hblock
    rw [executeOutput]
    exact hblock
  | _, _, _, _, .fault h => by
    filter_upwards [h.complete] with bound he
    rw [executeOutput]
    exact Eval.bind_of_fault he
  | _, _, _, _, .nothing h => by
    filter_upwards [h.complete] with bound he
    rw [executeOutput]
    exact Eval.bind_of_value he
  | _, _, _, _, .value h hvoid => by
    filter_upwards [h.complete] with bound he
    rw [executeOutput, Eval.bind_of_value he, if_neg hvoid]
    exact giveBack_machine _ _ _

end

/-! ## Agreement -/

/-- A machine has one store and one value on its way. -/
theorem Store.machine_inj {σ σ' : Store} {pending pending' : Option Value}
    (h : σ.machine pending = σ'.machine pending') : σ = σ' ∧ pending = pending' := by
  obtain ⟨arena, scope, calls, output⟩ := σ
  obtain ⟨arena', scope', calls', output'⟩ := σ'
  simp only [Store.machine, Machine.mk.injEq] at h
  obtain ⟨rfl, rfl, rfl, rfl, rfl⟩ := h
  exact ⟨rfl, rfl⟩

/-- What the evaluator shows tells how a statement ends. -/
theorem Completion.eq_of_shown {c c' : Completion} {σ σ' : Store}
    (h : (c.outcome, σ.machine c.pending) = (c'.outcome, σ'.machine c'.pending)) :
    c = c' ∧ σ = σ' := by
  obtain ⟨houtcome, hmachine⟩ := Prod.mk.inj h
  obtain ⟨rfl, hpending⟩ := Store.machine_inj hmachine
  refine ⟨?_, rfl⟩
  cases c <;> cases c' <;> simp_all [Completion.outcome, Completion.pending]

/-- **A statement ends in only one way.** -/
theorem Executes.unique {s : Statement} {σ σ₁ σ₂ : Store} {c₁ c₂ : Completion}
    (h₁ : Executes setting s σ c₁ σ₁) (h₂ : Executes setting s σ c₂ σ₂) : c₁ = c₂ ∧ σ₁ = σ₂ := by
  obtain ⟨bound, hbound₁, hbound₂⟩ := (h₁.complete.and h₂.complete).exists
  exact Completion.eq_of_shown (hbound₁.symm.trans hbound₂)

theorem ExecutesAll.unique {ss : List Statement} {σ σ₁ σ₂ : Store} {c₁ c₂ : Completion}
    (h₁ : ExecutesAll setting ss σ c₁ σ₁) (h₂ : ExecutesAll setting ss σ c₂ σ₂) :
    c₁ = c₂ ∧ σ₁ = σ₂ := by
  obtain ⟨bound, hbound₁, hbound₂⟩ := (h₁.complete.and h₂.complete).exists
  exact Completion.eq_of_shown (hbound₁.symm.trans hbound₂)

end

/-- Within some bound, a computation ends like this. -/
def Setting.Finishes {α : Type} (setting : Setting) (x : Invoke → Nat → Eval α) (m : Machine)
    (outcome : Outcome α) (m' : Machine) : Prop :=
  outcome ≠ .exhausted ∧ ∃ bound, x (invoke setting bound) bound m = (outcome, m')

section
variable {setting : Setting} {α : Type} {x : Invoke → Nat → Eval α} {σ : Store}
  {outcome : Outcome α} {m : Machine}

/-- What every large bound leads to, some bound does. -/
theorem Setting.Finishes.of_eventually (houtcome : outcome ≠ .exhausted)
    (h : ∀ᶠ bound in atTop, x (invoke setting bound) bound (σ.machine none) = (outcome, m)) :
    setting.Finishes x (σ.machine none) outcome m :=
  ⟨houtcome, h.exists⟩

/-- What finishes at all has a derivation that says how. -/
theorem Setting.Finishes.performs {x : Invoke → Nat → Eval Unit} {outcome : Outcome Unit}
    {R : Store → Completion → Store → Prop}
    (h : setting.Finishes x (σ.machine none) outcome m)
    (hx : ∀ bound, (x (invoke setting bound) bound).Performs R) :
    ∃ c σ', R σ c σ' ∧ outcome = c.outcome ∧ m = σ'.machine c.pending := by
  obtain ⟨houtcome, bound, hbound⟩ := h
  obtain ⟨c, σ', hR, heq⟩ := hx bound σ (by rwa [hbound])
  obtain ⟨rfl, rfl⟩ := Prod.mk.inj (hbound.symm.trans heq)
  exact ⟨c, σ', hR, rfl, rfl⟩

theorem Setting.Finishes.obeys {R : Store → Except Fault α → Store → Prop}
    (h : setting.Finishes x (σ.machine none) outcome m)
    (hx : ∀ bound, (x (invoke setting bound) bound).Obeys R) :
    ∃ r σ', R σ r σ' ∧ outcome = .ofExcept r ∧ m = σ'.machine none := by
  obtain ⟨houtcome, bound, hbound⟩ := h
  obtain ⟨r, σ', hR, heq⟩ := hx bound σ (by rwa [hbound])
  obtain ⟨rfl, rfl⟩ := Prod.mk.inj (hbound.symm.trans heq)
  exact ⟨r, σ', hR, rfl, rfl⟩

end

/-- **The evaluator and the rules agree**, from every store and without a value on its way. A
statement, or a list of them, ends within some bound exactly as the rules say, which is in one way:
it leaves a value on its way if that is returned, and none if the end is normal. The evaluation of
an expression leaves none. -/
theorem structured_returns (setting : Setting) (σ : Store) :
    (∀ s outcome m,
      setting.Finishes (fun invoke bound => execute setting invoke bound s) (σ.machine none)
        outcome m ↔
      ∃ c σ', Executes setting s σ c σ' ∧ outcome = c.outcome ∧ m = σ'.machine c.pending) ∧
    (∀ ss outcome m,
      setting.Finishes (fun invoke bound => executeAll setting invoke bound ss) (σ.machine none)
        outcome m ↔
      ∃ c σ', ExecutesAll setting ss σ c σ' ∧ outcome = c.outcome ∧ m = σ'.machine c.pending) ∧
    (∀ e outcome m,
      setting.Finishes (fun invoke _ => evaluate setting invoke e) (σ.machine none) outcome m ↔
      ∃ r σ', Evaluates setting e σ r σ' ∧ outcome = .ofExcept r ∧ m = σ'.machine none) ∧
    (∀ s c₁ c₂ σ₁ σ₂, Executes setting s σ c₁ σ₁ → Executes setting s σ c₂ σ₂ →
      c₁ = c₂ ∧ σ₁ = σ₂) ∧
    ∀ ss c₁ c₂ σ₁ σ₂, ExecutesAll setting ss σ c₁ σ₁ → ExecutesAll setting ss σ c₂ σ₂ →
      c₁ = c₂ ∧ σ₁ = σ₂ := by
  refine ⟨fun s outcome m => ⟨fun h => ?_, ?_⟩, fun ss outcome m => ⟨fun h => ?_, ?_⟩,
    fun e outcome m => ⟨fun h => ?_, ?_⟩, fun _ _ _ _ _ => Executes.unique,
    fun _ _ _ _ _ => ExecutesAll.unique⟩
  · exact h.performs fun bound => execute_sound (invoke_sound setting bound) s
  · rintro ⟨c, σ', hs, rfl, rfl⟩
    exact .of_eventually c.outcome_ne_exhausted hs.complete
  · exact h.performs fun bound => executeAll_sound (invoke_sound setting bound) ss
  · rintro ⟨c, σ', hss, rfl, rfl⟩
    exact .of_eventually c.outcome_ne_exhausted hss.complete
  · exact h.obeys fun bound => evaluate_sound (invoke_sound setting bound) e
  · rintro ⟨r, σ', he, rfl, rfl⟩
    exact .of_eventually (by cases r <;> exact nofun) he.complete

end FLang
