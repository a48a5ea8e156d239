import FLang.Proofs.Structured.Semantics

/-!
# The steps of the evaluator on stores

A store and a value on its way make a machine (`Store.machine`). Each step of the evaluator that is
not itself the evaluation of a tree does on the machine of a store, when no value is on its way,
what the rules say with the store alone.

* `Completion.outcome`, `Completion.pending` — a completion as the evaluator shows it;
* `Eval.unless_normal`, `Eval.unless_ended` — what follows is skipped unless the end is normal;
* `giveBack_machine`, `bindParameters_machine`, … — the steps;
* `invoke_machine` — a call, by what its body does.
-/

namespace FLang

open Eval Evaluation

/-! ## Stores as machines -/

/-- The machine of a store. -/
def Store.machine (σ : Store) (pending : Option Value) : Machine :=
  ⟨σ.arena, σ.scope, σ.calls, pending, σ.output⟩

def Outcome.ofExcept {α : Type} : Except Fault α → Outcome α
  | .ok a => .value a
  | .error f => .fault f

namespace Completion

/-- How the evaluator ends, -/
def outcome : Completion → Outcome Unit
  | .normal | .returned _ => .value ()
  | .failed fault => .fault fault

/-- and the value that it leaves on its way. -/
def pending : Completion → Option Value
  | .returned value => some value
  | .normal | .failed _ => none

@[simp] theorem outcome_ofExcept (r : Except Fault Unit) : (ofExcept r).outcome = .ofExcept r := by
  cases r <;> rfl

@[simp] theorem pending_ofExcept {α : Type} (r : Except Fault α) : (ofExcept r).pending = none := by
  cases r <;> rfl

end Completion

section
variable {α β : Type} {x : Eval α} {m m' : Machine} {r : Except Fault α}

@[simp] theorem Eval.ofExcept_apply (r : Except Fault α) (m : Machine) :
    Eval.ofExcept r m = (.ofExcept r, m) := by
  cases r <;> rfl

/-- A step that does not look at the machine follows a computation. -/
theorem Eval.bind_ofExcept (h : x m = (.ofExcept r, m')) (f : α → Except Fault β) :
    (x >>= fun a => Eval.ofExcept (f a)) m = (.ofExcept (r.bind f), m') := by
  cases r with
  | error fault => exact Eval.bind_of_fault h
  | ok a => rw [Eval.bind_of_value h, Eval.ofExcept_apply, Except.bind]

/-- A function is applied to a value and not to a fault. -/
theorem Eval.bind_pure_apply (h : x m = (.ofExcept r, m')) (f : α → β) :
    (x >>= fun a => Pure.pure (f a)) m = (.ofExcept (r.map f), m') := by
  cases r with
  | error fault => exact Eval.bind_of_fault h
  | ok a => exact Eval.bind_of_value h

end

section
variable {x y : Eval Unit} {m : Machine} {c : Completion} {σ : Store}

/-- After a normal end, what follows is executed; -/
theorem Eval.unless_normal
    (h : x m = (Completion.normal.outcome, σ.machine Completion.normal.pending)) :
    (do x; if ← isReturning then pure () else y : Eval Unit) m = y (σ.machine none) := by
  exact Eval.bind_of_value h

/-- otherwise it is skipped. -/
theorem Eval.unless_ended (h : x m = (c.outcome, σ.machine c.pending)) (hc : c ≠ .normal) :
    (do x; if ← isReturning then pure () else y : Eval Unit) m =
      (c.outcome, σ.machine c.pending) := by
  cases c with
  | normal => exact absurd rfl hc
  | returned value => exact Eval.bind_of_value h
  | failed fault => exact Eval.bind_of_fault h

end

/-! ## Steps on the machine of a store -/

section
variable (σ : Store)

/-- A machine changes variables as its store does. -/
theorem updateArena_machine (f : Arena → Option Nat → Except Fault Arena) :
    updateArena f (σ.machine none) = (.ofExcept (σ.update f).1, (σ.update f).2.machine none) := by
  simp only [updateArena, Store.machine, Store.update]
  cases f σ.arena σ.scope <;> rfl

/-- The same, of a statement. -/
theorem updateArena_completion (f : Arena → Option Nat → Except Fault Arena) :
    updateArena f (σ.machine none) = ((Completion.ofExcept (σ.update f).1).outcome,
      (σ.update f).2.machine (Completion.ofExcept (σ.update f).1).pending) := by
  rw [Completion.outcome_ofExcept, Completion.pending_ofExcept]
  exact updateArena_machine σ f

theorem giveBack_machine (value : Value) (position : Position) :
    giveBack value position (σ.machine none) =
      ((σ.returning value position).outcome, σ.machine (σ.returning value position).pending) := by
  simp only [Eval.giveBack_eq, Store.machine, Store.returning]
  cases σ.arena.returnTypeOf σ.scope with
  | error fault => rfl
  | ok expected =>
    by_cases htype : value.type = expected
    · simp only [if_pos htype, Completion.outcome, Completion.pending]
    · simp only [if_neg htype, Completion.outcome, Completion.pending]

/-- A machine binds parameters as its store does, by induction on them. -/
theorem bindParameters_machine (name : String) (position : Position) (index : Nat)
    (parameters : List Parameter) (values : List Value) :
    bindParameters name position index parameters values (σ.machine none) =
      (.ofExcept (σ.bindParameters name position index parameters values).1,
        (σ.bindParameters name position index parameters values).2.machine none) := by
  induction parameters generalizing index values σ with
  | nil => cases values <;> rfl
  | cons parameter parameters ih =>
    cases values with
    | nil => rfl
    | cons value values =>
      rw [bindParameters, Store.bindParameters]
      cases checkArgument name index parameter.type value position with
      | error fault => rfl
      | ok _ =>
        rw [Eval.ofExcept_ok_bind]
        have hdeclare := updateArena_machine σ fun arena scope =>
          arena.declare scope parameter.name value parameter.type parameter.position
        rcases hupdate : σ.declare parameter.name value parameter.type parameter.position with
          ⟨fault | _, σ'⟩ <;> rw [Store.declare] at hupdate <;> rw [hupdate] at hdeclare
        · exact Eval.bind_of_fault hdeclare
        · exact (Eval.bind_of_value hdeclare).trans (ih σ' (index + 1) values)

/-- An embedded function gives its answer and prints its text. -/
theorem callEmbedded_machine (function : Embedded) (values : List Value) (position : Position) :
    callEmbedded function values position (σ.machine none) =
      (.ofExcept (function.answer values position).1,
        (σ.print (function.answer values position).2).machine none) := by
  rw [callEmbedded, Embedded.answer]
  cases checkArguments function position 1 values with
  | error fault =>
    simp only [Store.print, String.append_empty]
    rfl
  | ok _ => rcases function.behavior values with ⟨printed, (details | fault) | value⟩ <;> rfl

/-- A call takes the value that its body returns. -/
theorem finishCall_machine (function : Function) {c : Completion} (hc : c.outcome = .value ()) :
    finishCall function (σ.machine c.pending) =
      (.ofExcept (c.result function), σ.machine none) := by
  rw [finishCall_eq]
  cases c with
  | failed fault => cases hc
  | returned value => rfl
  | normal =>
    simp only [Store.machine, Completion.pending, Completion.result]
    by_cases hvoid : function.returnType = .void
    · simp only [if_pos hvoid, Outcome.ofExcept]
    · simp only [if_neg hvoid, Outcome.ofExcept]

/-- A scope is left however what is done in it ends. -/
theorem withScope_machine {σ σ' : Store} {α : Type} {x : Eval α} (hx : x.Balanced)
    {returnType : Option ValueType} {outcome : Outcome α} {pending : Option Value}
    (h : x ((σ.enter returnType).machine none) = (outcome, σ'.machine pending)) :
    withScope returnType x (σ.machine none) = (outcome, (σ'.leave σ).machine pending) := by
  rw [hx.withScope_eq]
  rw [show x ((σ.machine none).opened returnType) = _ from h]
  rfl

/-- What ends in a scope of its own has ended inside of it. -/
theorem ended_of_withScope {σ : Store} {α : Type} {x : Eval α} (hx : x.Balanced)
    {returnType : Option ValueType}
    (h : (withScope returnType x (σ.machine none)).1 ≠ .exhausted) :
    (x ((σ.enter returnType).machine none)).1 ≠ .exhausted := by
  rwa [hx.withScope_eq] at h

end

/-! ## Calls -/

section
variable {setting : Setting} {bound : Nat} {function : Function} {values : List Value}
  {position : Position} {σ σ' : Store} {c : Completion}

/-- A call whose arguments do not fit fails in its scope, -/
theorem enter_failed {fault : Fault}
    (h : σ.bindParameters function.name position 1 function.parameters values =
      (.error fault, σ')) :
    enter setting (invoke setting bound) bound function values position (σ.machine none) =
      ((Completion.failed fault).outcome, σ'.machine (Completion.failed fault).pending) := by
  have hparameters := bindParameters_machine σ function.name position 1 function.parameters values
  rw [h] at hparameters
  exact Eval.bind_of_fault hparameters

/-- and every other one executes its body there. -/
theorem enter_bound
    (h : σ.bindParameters function.name position 1 function.parameters values = (.ok (), σ')) :
    enter setting (invoke setting bound) bound function values position (σ.machine none) =
      executeAll setting (invoke setting bound) bound function.body.statements
        (σ'.machine none) := by
  have hparameters := bindParameters_machine σ function.name position 1 function.parameters values
  rw [h] at hparameters
  exact Eval.bind_of_value hparameters

/-- What a call does, by what is done in its scope. -/
theorem perform_machine
    (h : enter setting (invoke setting bound) bound function values position
      ((σ.enter (some function.returnType)).machine none) = (c.outcome, σ'.machine c.pending)) :
    perform setting (invoke setting bound) bound function values position (σ.machine none) =
      (.ofExcept (c.result function), (σ'.leave σ).machine none) := by
  have hbalanced := (linked_balance setting bound).enter function values position
  have hscope := withScope_machine hbalanced h
  cases c with
  | failed fault => exact Eval.bind_of_fault hscope
  | normal => exact (Eval.bind_of_value hscope).trans (finishCall_machine _ function rfl)
  | returned value => exact (Eval.bind_of_value hscope).trans (finishCall_machine _ function rfl)

/-- A call that is not refused runs the body in a scope above all others, and gives what the body
returns. -/
theorem invoke_machine (hdepth : σ.calls.depth function.name < setting.maxDepth)
    (h : enter setting (invoke setting bound) bound function values position
      (((σ.activate function.name).enter (some function.returnType)).machine none) =
        (c.outcome, σ'.machine c.pending)) :
    invoke setting (bound + 1) function values position (σ.machine none) =
      (.ofExcept (c.result function),
        ((σ'.leave (σ.activate function.name)).deactivate function.name).machine none) := by
  have hallowed : ¬(σ.machine none).calls.depth function.name ≥ setting.maxDepth :=
    Nat.not_le_of_lt hdepth
  rw [invoke_succ, if_neg hallowed]
  have hperform := perform_machine h
  simp only [Store.machine, Store.activate] at hperform
  simp only [whileActive, Store.machine, hperform]
  rfl

/-- At the limit of depth, a call is refused and the store is left. -/
theorem invoke_refused (hdepth : setting.maxDepth ≤ σ.calls.depth function.name) :
    invoke setting (bound + 1) function values position (σ.machine none) =
      (.fault (.semantic position (.maxRecursionDepthExceeded setting.maxDepth function.name)),
        σ.machine none) := by
  rw [invoke_succ]
  exact if_pos hdepth

end

end FLang
