import FLang.Proofs.Runs.Congruence
import FLang.Proofs.Scopes.Region

/-!
# Scopes and calls are closed again

However a computation ends, as many scopes are open as before, the same one is current, and the same
calls are active. This holds of every machine, also of one in which no scope is open at all, so it
says less about variables than the region of a call does.

* `Machine.Level` — what stays the same;
* `Eval.Balanced` — a computation that keeps it, and so never fails to close a scope
  (`Balanced.withScope_eq`);
* `invoke_balanced` — calls are balanced, and so is the evaluation of every tree (`linked_balance`);
* `invoke_eq_value` — what has been done when a call ends with a value.
-/

namespace FLang

open Eval Evaluation

/-! ## Scopes are opened and closed -/

/-- A machine in a new scope inside its current one. -/
def Machine.opened (m : Machine) (returnType : Option ValueType) : Machine :=
  { m with arena := m.arena.openScope m.scope returnType, scope := some m.arena.size }

/-- A machine after closing every scope that was opened since an earlier one. -/
def Machine.closed (m' m : Machine) : Machine :=
  { m' with arena := ⟨m'.arena.scopes.take m.arena.size⟩, scope := m.scope }

@[simp] theorem Machine.size_opened (m : Machine) (returnType : Option ValueType) :
    (m.opened returnType).arena.size = m.arena.size + 1 :=
  Arena.size_openScope

/-- Closing a scope takes away all that were opened since. -/
theorem Machine.size_closed {m m' : Machine} (h : m.arena.size ≤ m'.arena.size) :
    (m'.closed m).arena.size = m.arena.size := by
  simp only [closed, Arena.size, Array.take_eq_extract, Array.size_extract] at *
  omega

/-- A scope that is open at the end of a computation can be closed. -/
theorem Eval.withScope_eq {α : Type} {x : Eval α} {m : Machine} {returnType : Option ValueType}
    (h : m.arena.size < (x (m.opened returnType)).2.arena.size) :
    withScope returnType x m =
      ((x (m.opened returnType)).1, (x (m.opened returnType)).2.closed m) := by
  have hclose : (x (m.opened returnType)).2.arena.close m.arena.size =
      .ok ⟨(x (m.opened returnType)).2.arena.scopes.take m.arena.size⟩ := if_pos h
  simp only [Machine.opened] at hclose
  simp only [withScope, Machine.opened, hclose, Machine.closed]

/-! ## Sizes -/

namespace Arena

variable {arena arena' : Arena} {name : String} {value : Value} {position : Position}

/-- A declaration opens no scope, -/
theorem size_declare {index : Option Nat} {type : ValueType}
    (h : arena.declare index name value type position = .ok arena') : arena'.size = arena.size := by
  rcases index with _ | index
  · cases h
  simp only [declare] at h
  rcases hscope : arena.scopes[index]? with _ | scope
  · simp only [hscope] at h
    cases h
  simp only [hscope] at h
  rcases hfind : scope.find? name with _ | earlier
  · simp only [hfind] at h
    rcases checkType_cases value type position with hok | ⟨cause, herror⟩
    · rw [hok] at h
      obtain rfl := Except.ok.inj h
      exact Array.size_modify
    · rw [herror] at h
      cases h
  · simp only [hfind] at h
    cases h

/-- and neither does an assignment. -/
theorem size_assign {start : Option Nat} (h : arena.assign start name value position = .ok arena') :
    arena'.size = arena.size := by
  simp only [assign] at h
  rcases hresolve : arena.resolve start name with fault | _ | ⟨index, entry⟩
  · rw [hresolve] at h
    cases h
  · rw [hresolve] at h
    cases h
  · rw [hresolve] at h
    rcases checkType_cases value entry.type position with hok | ⟨cause, herror⟩
    · simp only [bind, Except.bind, hok] at h
      obtain rfl := Except.ok.inj h
      exact Array.size_modify
    · simp only [bind, Except.bind, herror] at h
      cases h

end Arena

/-! ## Balanced computations -/

/-- As many scopes are open, the same one is current, and the same calls are active. -/
structure Machine.Level (m m' : Machine) : Prop where
  size : m'.arena.size = m.arena.size
  scope : m'.scope = m.scope
  calls : m'.calls = m.calls

theorem Machine.Level.refl (m : Machine) : m.Level m := ⟨rfl, rfl, rfl⟩

theorem Machine.Level.trans {m m' m'' : Machine} (h : m.Level m') (h' : m'.Level m'') :
    m.Level m'' :=
  ⟨h'.size.trans h.size, h'.scope.trans h.scope, h'.calls.trans h.calls⟩

/-- A computation that closes what it opens, however it ends. -/
def Eval.Balanced {α : Type} (x : Eval α) : Prop :=
  ∀ m : Machine, m.Level (x m).2

namespace Eval.Balanced

variable {α β : Type} {x : Eval α}

theorem exhausted : (Eval.exhausted : Eval α).Balanced := Machine.Level.refl

/-- Balanced computations in sequence are balanced. -/
theorem bind {f : α → Eval β} (hx : x.Balanced) (hf : ∀ a, (f a).Balanced) :
    (x >>= f).Balanced := by
  intro m
  have hlevel := hx m
  rcases hxm : x m with ⟨a | fault | _, m'⟩ <;> rw [hxm] at hlevel
  · rw [Eval.bind_of_value hxm]
    exact hlevel.trans (hf a m')
  · rw [Eval.bind_of_fault hxm]
    exact hlevel
  · rw [Eval.bind_of_exhausted hxm]
    exact hlevel

theorem ofExcept (result : Except Fault α) : (Eval.ofExcept result).Balanced := by
  cases result <;> exact Machine.Level.refl

/-- Changing variables is balanced, if the number of scopes stays. -/
theorem updateArena {f : Arena → Option Nat → Except Fault Arena}
    (hf : ∀ {arena scope arena'}, f arena scope = .ok arena' → arena'.size = arena.size) :
    (Eval.updateArena f).Balanced := by
  intro m
  rcases hfm : f m.arena m.scope with fault | arena
  · simp only [Eval.updateArena, hfm]
    exact .refl m
  · simp only [Eval.updateArena, hfm]
    exact ⟨hf hfm, rfl, rfl⟩

/-- Giving a value back changes no scopes. -/
theorem giveBack (value : Value) (position : Position) :
    (Eval.giveBack value position).Balanced := by
  intro m
  rw [Eval.giveBack_eq]
  rcases m.arena.returnTypeOf m.scope with fault | expected
  · exact .refl m
  · by_cases h : value.type = expected
    · simp only [if_pos h]
      exact ⟨rfl, rfl, rfl⟩
    · simp only [if_neg h]
      exact .refl m

/-- A balanced computation leaves the scope open in which it was started. -/
theorem size_lt (hx : x.Balanced) (m : Machine) (returnType : Option ValueType) :
    m.arena.size < (x (m.opened returnType)).2.arena.size := by
  rw [(hx (m.opened returnType)).size, Machine.size_opened]
  exact Nat.lt_succ_self _

/-- No scope is missing when it is to be closed. -/
theorem withScope_eq (hx : x.Balanced) (m : Machine) (returnType : Option ValueType) :
    withScope returnType x m =
      ((x (m.opened returnType)).1, (x (m.opened returnType)).2.closed m) :=
  Eval.withScope_eq (hx.size_lt m returnType)

/-- **What runs in a scope of its own is balanced**: the scope is closed, whatever happens in it. -/
theorem withScope (hx : x.Balanced) (returnType : Option ValueType) :
    (Eval.withScope returnType x).Balanced := by
  intro m
  rw [hx.withScope_eq]
  exact ⟨Machine.size_closed (Nat.le_of_lt (hx.size_lt m returnType)), rfl,
    (hx (m.opened returnType)).calls⟩

/-- A call is taken off the stack when it ends. -/
theorem whileActive (hx : x.Balanced) (name : String) : (Eval.whileActive name x).Balanced := by
  intro m
  have hlevel := hx { m with calls := m.calls.push name }
  refine ⟨hlevel.size, hlevel.scope, ?_⟩
  -- what was put on top is taken off again
  calc (x { m with calls := m.calls.push name }).2.calls.pop name
      = (m.calls.push name).pop name := by rw [hlevel.calls]
    _ = m.calls := by simp only [CallStack.push, CallStack.pop, List.erase_cons_head]

end Eval.Balanced

/-- Being balanced, as a relation that looks at the first computation only. -/
def balance : Congruence where
  rel x _ := x.Balanced
  pure _ := Machine.Level.refl
  fail _ := Machine.Level.refl
  bind := .bind
  readVariable _ _ m := Eval.Balanced.ofExcept _ m
  declare _ _ _ _ := .updateArena Arena.size_declare
  assign _ _ _ := .updateArena Arena.size_assign
  emit _ _ := ⟨rfl, rfl, rfl⟩
  giveBack := .giveBack
  isReturning := Machine.Level.refl
  takeReturned _ := ⟨rfl, rfl, rfl⟩
  nested h := h.withScope none

theorem balance_repeats (bound : Nat) : balance.Repeats bound bound :=
  balance.repeats_same Eval.Balanced.exhausted bound

/-- **Calls close what they open**, however deep they are nested and however they end. -/
theorem invoke_balanced (setting : Setting) (bound : Nat) (function : Function)
    (arguments : List Value) (position : Position) :
    (invoke setting bound function arguments position).Balanced := by
  induction bound generalizing function arguments position with
  | zero => exact .exhausted
  | succ bound ih =>
    intro m
    rw [invoke_succ]
    by_cases hdepth : m.calls.depth function.name ≥ setting.maxDepth
    · rw [if_pos hdepth]
      exact .refl m
    · rw [if_neg hdepth]
      have hlinks : balance.Links setting setting (invoke setting bound) (invoke setting bound)
          bound bound := ⟨rfl, rfl, fun function _ => ih function, balance_repeats bound⟩
      have henter : (enter setting (invoke setting bound) bound function arguments
          position).Balanced := hlinks.enter function arguments position
      have hperform := (henter.withScope (some function.returnType)).bind fun _ =>
        balance.finishCall function
      exact hperform.whileActive function.name m

/-- The evaluation of every tree is balanced. -/
theorem linked_balance (setting : Setting) (bound : Nat) :
    balance.Links setting setting (invoke setting bound) (invoke setting bound) bound bound :=
  ⟨rfl, rfl, fun function _ => invoke_balanced setting bound function, balance_repeats bound⟩

/-- A call that ends with a value was not refused. It executed its body in its scope, and then took
the value. -/
theorem invoke_eq_value {setting : Setting} {bound : Nat} {function : Function}
    {arguments : List Value} {position : Position} {m m' : Machine} {value : Value}
    (h : invoke setting bound function arguments position m = (.value value, m')) :
    let active : Machine := { m with calls := m.calls.push function.name }
    ∃ bound' m₁ m₂, bound = bound' + 1 ∧ m.calls.depth function.name < setting.maxDepth ∧
      enter setting (invoke setting bound') bound' function arguments position
        (active.opened (some function.returnType)) = (.value (), m₁) ∧
      finishCall function (m₁.closed active) = (.value value, m₂) ∧
      m' = { m₂ with calls := m₂.calls.pop function.name } := by
  intro active
  cases bound with
  | zero => cases h
  | succ bound =>
    rw [invoke_succ] at h
    by_cases hdepth : m.calls.depth function.name ≥ setting.maxDepth
    · rw [if_pos hdepth] at h
      cases h
    rw [if_neg hdepth] at h
    rcases hperform : perform setting (invoke setting bound) bound function arguments position
      active with ⟨outcome, m₂⟩
    simp only [whileActive, active] at h hperform
    rw [hperform] at h
    obtain ⟨rfl, rfl⟩ := Prod.mk.inj h
    obtain ⟨_, m₀, hscope, hfinish⟩ := Eval.value_of_bind hperform
    -- the scope of the call can be closed, since its body is balanced
    have hbalanced := (linked_balance setting bound).enter function arguments position
    rw [hbalanced.withScope_eq] at hscope
    obtain ⟨hvalue, rfl⟩ := Prod.mk.inj hscope
    exact ⟨bound, _, m₂, rfl, Nat.lt_of_not_ge hdepth, Prod.ext hvalue rfl, hfinish, rfl⟩

end FLang
