import FLang.Proofs.Runs.Bounds
import FLang.Proofs.Runs.Exhaustion
import FLang.Session
import Mathlib.Algebra.Order.BigOperators.Group.Finset

/-!
# The recursion guard

A call is refused if its function is active as often as is allowed. This bounds how deep calls can
be nested, whichever functions call each other, and so a program without loops always ends.

* `Moment.Guarded` — what the guard keeps true: no function is active more often than is allowed;
* `Guarded.nesting_le` — so calls are nested at most so often for each function of the program;
* `run_ends` — so a program without loops ends, as a call that did not would nest too many.
-/

namespace FLang

open Eval Evaluation

/-! ## The guard -/

/-- What the guard keeps true of the active calls. -/
structure Moment.Guarded (setting : Setting) (moment : Moment) : Prop where
  /-- No function is active more often than is allowed. -/
  depth_le : ∀ name, moment.machine.calls.depth name ≤ setting.maxDepth
  /-- Only functions of the program are active, -/
  active_mem : ∀ name ∈ moment.machine.calls.active,
    name ∈ setting.program.functions.map Function.name
  /-- and only they are called. -/
  callee_mem : ∀ function values position, moment.task = .call function values position →
    function ∈ setting.program.functions

namespace Moment.Guarded

variable {setting : Setting} {moment moment' : Moment}

/-- A call that would be one too many is refused. -/
theorem enters (h : moment.Guarded setting) (hpart : moment.Enters setting moment') :
    moment'.Guarded setting := by
  refine ⟨?_, ?_, fun function values position htask => hpart.function_mem htask⟩
  · intro name
    obtain hcalls | ⟨function, _, _, _, hdepth, hcalls⟩ := hpart.calls
    · rw [hcalls]
      exact h.depth_le name
    · rw [hcalls, CallStack.depth_push]
      by_cases hname : function.name = name
      · rw [if_pos hname, ← hname]
        exact hdepth
      · rw [if_neg hname]
        exact h.depth_le name
  · intro name hname
    obtain hcalls | ⟨function, values, position, htask, _, hcalls⟩ := hpart.calls
    · rw [hcalls] at hname
      exact h.active_mem name hname
    · rw [hcalls, CallStack.push, List.mem_cons] at hname
      rcases hname with rfl | hname
      · exact List.mem_map_of_mem (h.callee_mem function values position htask)
      · exact h.active_mem name hname

theorem reaches (h : moment.Guarded setting) (hreaches : Moment.Reaches setting moment moment') :
    moment'.Guarded setting := by
  induction hreaches with
  | refl => exact h
  | tail _ hpart ih => exact ih.enters hpart

/-- Nothing is active when a run begins. -/
theorem start {function : Function} (hmem : function ∈ setting.program.functions)
    (values : List Value) (position : Position) :
    Moment.Guarded setting ⟨.call function values position, {}⟩ := by
  refine ⟨fun name => Nat.zero_le _, nofun, ?_⟩
  rintro _ _ _ ⟨⟩
  exact hmem

/-- **Calls are nested at most as often as the guard allows for each function.** -/
theorem nesting_le (h : moment.Guarded setting) :
    moment.machine.calls.active.length ≤ setting.maxDepth * setting.program.functions.length := by
  have hcard : moment.machine.calls.active.toFinset.card ≤ setting.program.functions.length := by
    calc moment.machine.calls.active.toFinset.card
        ≤ (setting.program.functions.map Function.name).toFinset.card := by
          apply Finset.card_le_card
          intro name hname
          rw [List.mem_toFinset] at hname ⊢
          exact h.active_mem name hname
      _ ≤ (setting.program.functions.map Function.name).length := List.toFinset_card_le _
      _ = setting.program.functions.length := List.length_map _
  calc moment.machine.calls.active.length
      = ∑ name ∈ moment.machine.calls.active.toFinset, moment.machine.calls.depth name :=
        (List.sum_toFinset_count_eq_length _).symm
    _ ≤ moment.machine.calls.active.toFinset.card * setting.maxDepth :=
        Finset.sum_le_card_nsmul _ _ _ fun name _ => h.depth_le name
    _ ≤ setting.program.functions.length * setting.maxDepth := Nat.mul_le_mul_right _ hcard
    _ = setting.maxDepth * setting.program.functions.length := Nat.mul_comm _ _

end Moment.Guarded

/-- What is reached in a run is guarded. -/
theorem Setting.Reaches.guarded {setting : Setting} {entry : String} {arguments : List Value}
    {moment : Moment} (h : setting.Reaches entry arguments moment) : moment.Guarded setting := by
  obtain ⟨function, hfound, _, hreaches⟩ := h
  have hmem : function ∈ setting.program.functions := List.mem_of_find?_eq_some hfound
  exact (Moment.Guarded.start hmem arguments function.position).reaches hreaches

/-! ## Runs without loops -/

theorem Session.call_completes (setting : Setting) {bound bound' : Nat} (h : bound ≤ bound')
    (entry : String) (arguments : List Value) :
    (Session.call setting bound entry arguments).Completes
      (Session.call setting bound' entry arguments) := by
  rw [Session.call, Session.call]
  cases setting.program.find? entry with
  | none => exact completion.fail _
  | some function =>
    refine completion.bind completion.takeReturned fun _ => ?_
    exact completion.bind (completion.checkCount _ _ _ _) fun _ =>
      invoke_completes setting h function arguments function.position

/-- A bound that is larger than the nesting of calls can get is not reached. -/
theorem Session.call_ends {setting : Setting}
    (hloops : ∀ f ∈ setting.program.functions, f.body.hasLoop = false) {bound : Nat}
    (hbound : setting.maxDepth * setting.program.functions.length < bound) (entry : String)
    (arguments : List Value) : (Session.call setting bound entry arguments {}).1 ≠ .exhausted := by
  intro h
  rw [Session.call] at h
  cases hfound : setting.program.find? entry with
  | none =>
    rw [hfound] at h
    cases h
  | some function =>
    simp only [hfound] at h
    obtain ⟨_, m, hm, h⟩ := Eval.exhausted_second ending.takeReturned h
    obtain ⟨_, m', hm', h⟩ := Eval.exhausted_second (ending.checkCount _ _ _ _) h
    have hmem : function ∈ setting.program.functions := List.mem_of_find?_eq_some hfound
    have hstart : m' = {} := by
      rw [checkCount_eq] at hm'
      cases hm
      split at hm' <;> cases hm'
      rfl
    subst hstart
    obtain ⟨moment, hreaches, hlength⟩ := invoke_exhausted hloops bound hmem h
    have hnesting := ((Moment.Guarded.start hmem _ _).reaches hreaches).nesting_le
    have hnone : ({} : Machine).calls.active.length = 0 := rfl
    omega

theorem Session.call_settles (setting : Setting)
    (hloops : ∀ f ∈ setting.program.functions, f.body.hasLoop = false) (entry : String)
    (arguments : List Value) :
    ∃ outcome m, outcome ≠ .exhausted ∧
      ∀ bound, setting.maxDepth * setting.program.functions.length < bound →
        Session.call setting bound entry arguments {} = (outcome, m) := by
  have hends := Session.call_ends hloops (Nat.lt_succ_self _) entry arguments
  rcases hcall : Session.call setting (setting.maxDepth * setting.program.functions.length + 1)
    entry arguments {} with ⟨outcome, m⟩
  rw [hcall] at hends
  refine ⟨outcome, m, hends, fun bound hbound => ?_⟩
  have hcompletes := Session.call_completes setting hbound entry arguments
  rw [hcompletes.eq_of_ended {} (by rwa [hcall]), hcall]

/-- **A program without loops ends**, whichever functions call each other: its run comes to the same
end with every bound beyond the calls that can be nested. At every moment of the run, no function is
active more often than is allowed, so calls are nested at most so often for each function. -/
theorem run_ends {limits : Limits} {source : String} {program : Program}
    (hparse : parse limits source = .ok program)
    (hloops : ∀ f ∈ program.functions, f.body.hasLoop = false) (registry : Registry)
    (maxDepth : Nat) (entry : String) (arguments : List Value) :
    (∃ outcome m, outcome ≠ .exhausted ∧ ∀ bound, maxDepth * program.functions.length < bound →
      run limits source registry maxDepth entry arguments bound = (outcome, m)) ∧
    ∀ moment, Setting.Reaches ⟨program, registry, maxDepth⟩ entry arguments moment →
      (∀ name, moment.machine.calls.depth name ≤ maxDepth) ∧
      moment.machine.calls.active.length ≤ maxDepth * program.functions.length := by
  refine ⟨?_, fun moment h => ⟨h.guarded.depth_le, h.guarded.nesting_le⟩⟩
  simp only [run, hparse, Program.run, Setting.make]
  cases program.functions.find? fun function => registry.contains function.name with
  | some function =>
    exact ⟨.fault (.semantic function.position (.redefineEmbeddedFunction function.name)), {},
      nofun, fun _ _ => rfl⟩
  | none => exact Session.call_settles ⟨program, registry, maxDepth⟩ hloops entry arguments

/-- Functions that call each other without end. -/
def knottedSource : String :=
  "ping(n int) int \x7b\n  return pong(n + 1) + 1\n\x7d\n\npong(n int) int \x7b\n" ++
    "  if n > 5 \x7b return ping(n) + ping(n) \x7d\n  return ping(n)\n\x7d\n\n" ++
    "main() int \x7b\n  return ping(3)\n\x7d\n"

theorem run_ends_knottedSource :
    ∃ program, parse {} knottedSource = .ok program ∧
      (∀ f ∈ program.functions, f.body.hasLoop = false) ∧
      (run {} knottedSource .standard 4 "main" [] 13).1 =
        .fault (.semantic ⟨6, 21⟩ (.maxRecursionDepthExceeded 4 "ping")) ∧
      (∃ outcome m, outcome ≠ .exhausted ∧ ∀ bound, 4 * program.functions.length < bound →
        run {} knottedSource .standard 4 "main" [] bound = (outcome, m)) ∧
      ∀ moment, Setting.Reaches ⟨program, .standard, 4⟩ "main" [] moment →
        (∀ name, moment.machine.calls.depth name ≤ 4) ∧
        moment.machine.calls.active.length ≤ 4 * program.functions.length := by
  have hfault : (run {} knottedSource .standard 4 "main" [] 13).1 =
      .fault (.semantic ⟨6, 21⟩ (.maxRecursionDepthExceeded 4 "ping")) := by
    decide +kernel
  have hloopless : (match parse {} knottedSource with
      | .ok program => program.functions.all fun f => !f.body.hasLoop
      | .error _ => false) = true := by
    decide +kernel
  cases hparse : parse {} knottedSource with
  | error fault =>
    rw [hparse] at hloopless
    cases hloopless
  | ok program =>
    have hloops : ∀ f ∈ program.functions, f.body.hasLoop = false := by
      intro f hf
      rw [hparse] at hloopless
      exact Bool.not_eq_true' _ ▸ List.all_eq_true.mp hloopless f hf
    exact ⟨program, rfl, hloops, hfault, run_ends hparse hloops .standard 4 "main" []⟩

end FLang
