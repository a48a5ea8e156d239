import FLang.Proofs.Runs.Bounds
import FLang.Session

/-!
# The recursion limit is only a guard

A call is refused if its function is active as often as is allowed. That is all the limit does: a
run in which no call was refused goes the same way with every larger limit (`run_of_larger_depth`).

Two runs with different limits go in step until the first refusal. A refusal ends a run, so it can
be treated like the bound on calls and loops, which also stops runs that would go on:

* `Eval.unrefused` — a computation that does not end where a call is refused;
* `unrefused_bind`, … — the parts of a computation are then refused on their own;
* `Eval.Deepens` — so a larger limit completes a computation as a larger bound does
  (`Eval.Completes`), and `invoke_deepens` follows from the same theory of evaluation.
-/

namespace FLang

open Eval Evaluation

/-! ## Refusals -/

/-- Whether a fault refuses a call because its function is active too often. -/
def Fault.isRefusal : Fault → Bool
  | .diagnostic d => d.cause.code = .maxRecursionDepthExceeded
  | _ => false

/-- An outcome for which a refusal is no end. -/
def Outcome.unrefused {α : Type} : Outcome α → Outcome α
  | .fault f => if f.isRefusal then .exhausted else .fault f
  | outcome => outcome

/-- A computation that does not end where a call is refused. -/
def Eval.unrefused {α : Type} (x : Eval α) : Eval α := fun m => ((x m).1.unrefused, (x m).2)

/-- What ended without a refusal ended. -/
theorem Outcome.eq_of_unrefused {α : Type} {outcome : Outcome α}
    (h : outcome.unrefused ≠ .exhausted) : outcome.unrefused = outcome := by
  cases outcome with
  | value a => rfl
  | exhausted => rfl
  | fault fault =>
    by_cases hrefusal : fault.isRefusal = true
    · simp [Outcome.unrefused, hrefusal] at h
    · simp [Outcome.unrefused, hrefusal]

section
variable {α β : Type} {x y : Eval α}

/-- A sequence is refused where one of its parts is. -/
theorem Eval.unrefused_bind (x : Eval α) (f : α → Eval β) :
    (x >>= f).unrefused = x.unrefused >>= fun a => (f a).unrefused := by
  funext m
  rcases hx : x m with ⟨a | fault | _, m'⟩
  · have hun : x.unrefused m = (.value a, m') := by simp [Eval.unrefused, hx, Outcome.unrefused]
    rw [Eval.bind_of_value hun, Eval.unrefused, Eval.bind_of_value hx]
    rfl
  · rw [Eval.unrefused, Eval.bind_of_fault hx]
    by_cases hrefusal : fault.isRefusal = true
    · have hun : x.unrefused m = (.exhausted, m') := by
        simp [Eval.unrefused, hx, Outcome.unrefused, hrefusal]
      simp [Eval.bind_of_exhausted hun, Outcome.unrefused, hrefusal]
    · have hun : x.unrefused m = (.fault fault, m') := by
        simp [Eval.unrefused, hx, Outcome.unrefused, hrefusal]
      simp [Eval.bind_of_fault hun, Outcome.unrefused, hrefusal]
  · have hun : x.unrefused m = (.exhausted, m') := by
      simp [Eval.unrefused, hx, Outcome.unrefused]
    simp [Eval.bind_of_exhausted hun, Eval.unrefused, Eval.bind_of_exhausted hx, Outcome.unrefused]

theorem Eval.Balanced.unrefused (hx : x.Balanced) : x.unrefused.Balanced := hx

/-- A scope is closed again also after a refusal. -/
theorem Eval.unrefused_withScope (hx : x.Balanced) (returnType : Option ValueType) :
    (withScope returnType x).unrefused = withScope returnType x.unrefused := by
  funext m
  rw [hx.unrefused.withScope_eq, Eval.unrefused, hx.withScope_eq]
  rfl

@[simp] theorem Eval.unrefused_whileActive (name : String) (x : Eval α) :
    (whileActive name x).unrefused = whileActive name x.unrefused :=
  rfl

end

/-! ## Larger limits -/

/-- The second computation ends as the first one does, if the first one ends and is not refused a
call. -/
structure Eval.Deepens {α : Type} (x y : Eval α) : Prop where
  balanced : x.Balanced
  completes : x.unrefused.Completes y

namespace Eval.Deepens

variable {α β : Type} {x y : Eval α}

/-- A balanced computation is its own deeper version. -/
theorem refl (hx : x.Balanced) : x.Deepens x := by
  refine ⟨hx, hx.unrefused, fun m hended => ?_⟩
  exact Prod.ext (Outcome.eq_of_unrefused hended).symm rfl

theorem exhausted (y : Eval α) : Eval.exhausted.Deepens y :=
  ⟨.exhausted, .exhausted y⟩

/-- Sequences are refused less often, if their parts are. -/
theorem bind {f g : α → Eval β} (h : x.Deepens y) (hf : ∀ a, (f a).Deepens (g a)) :
    (x >>= f).Deepens (y >>= g) := by
  refine ⟨h.balanced.bind fun a => (hf a).balanced, ?_⟩
  rw [Eval.unrefused_bind]
  exact h.completes.bind fun a => (hf a).completes

/-- A scope does not count for the depth. -/
theorem withScope (h : x.Deepens y) (returnType : Option ValueType) :
    (Eval.withScope returnType x).Deepens (Eval.withScope returnType y) := by
  refine ⟨h.balanced.withScope returnType, ?_⟩
  rw [Eval.unrefused_withScope h.balanced]
  exact h.completes.withScope returnType

theorem whileActive (h : x.Deepens y) (name : String) :
    (Eval.whileActive name x).Deepens (Eval.whileActive name y) := by
  refine ⟨h.balanced.whileActive name, ?_⟩
  rw [Eval.unrefused_whileActive]
  exact h.completes.whileActive name

end Eval.Deepens

/-- Going deeper as a relation that evaluation keeps. -/
def deepening : Congruence where
  rel x y := x.Deepens y
  pure a := .refl (balance.pure a)
  fail fault := .refl (balance.fail fault)
  bind := .bind
  readVariable name position := .refl (balance.readVariable name position)
  declare name value type position := .refl (balance.declare name value type position)
  assign name value position := .refl (balance.assign name value position)
  emit text := .refl (balance.emit text)
  giveBack value position := .refl (balance.giveBack value position)
  isReturning := .refl balance.isReturning
  takeReturned := .refl balance.takeReturned
  nested h := h.withScope none

theorem deepening_repeats {bound bound' : Nat} (h : bound ≤ bound') :
    deepening.Repeats bound bound' :=
  deepening.repeats_longer Eval.Deepens.exhausted h

/-- The same setting with another recursion limit. -/
def Setting.withDepth (setting : Setting) (depth : Nat) : Setting :=
  { setting with maxDepth := depth }

/-- **A larger limit changes nothing for calls that end and are not refused.** -/
theorem invoke_deepens (setting : Setting) {depth : Nat} (hdepth : setting.maxDepth ≤ depth)
    {bound bound' : Nat} (hbound : bound ≤ bound') (function : Function) (arguments : List Value)
    (position : Position) :
    (invoke setting bound function arguments position).Deepens
      (invoke (setting.withDepth depth) bound' function arguments position) := by
  induction bound generalizing bound' function arguments position with
  | zero => exact .exhausted _
  | succ bound ih =>
    obtain ⟨more, rfl⟩ := Nat.exists_eq_add_of_lt hbound
    have hle : bound ≤ bound + more := Nat.le_add_right ..
    have hlinks : deepening.Links setting (setting.withDepth depth) (invoke setting bound)
        (invoke (setting.withDepth depth) (bound + more)) bound (bound + more) :=
      ⟨rfl, rfl, fun function _ => ih hle function, deepening_repeats hle⟩
    have henter : (enter setting (invoke setting bound) bound function arguments position).Deepens
        (enter (setting.withDepth depth) (invoke (setting.withDepth depth) (bound + more))
          (bound + more) function arguments position) :=
      hlinks.enter function arguments position
    have hperform := ((henter.withScope (some function.returnType)).bind fun _ =>
      deepening.finishCall function).whileActive function.name
    have hbalanced := invoke_balanced setting (bound + 1) function arguments position
    refine ⟨hbalanced, hbalanced.unrefused, fun m hended => ?_⟩
    rw [Eval.unrefused, invoke_succ] at hended ⊢
    rw [invoke_succ]
    -- the smaller limit refuses the call, or neither of them does
    by_cases hrefused : m.calls.depth function.name ≥ setting.maxDepth
    · rw [if_pos hrefused] at hended
      exact absurd rfl hended
    · have hallowed : ¬ m.calls.depth function.name ≥ (setting.withDepth depth).maxDepth :=
        fun h => hrefused (Nat.le_trans hdepth h)
      rw [if_neg hrefused] at hended ⊢
      rw [if_neg hallowed]
      exact hperform.completes.eq_of_ended m hended

/-- **With a larger limit a call of a session does the same**, unless the smaller limit refused
it. -/
theorem Session.call_deepens (setting : Setting) {depth : Nat} (hdepth : setting.maxDepth ≤ depth)
    {bound bound' : Nat} (hbound : bound ≤ bound') (entry : String) (arguments : List Value) :
    (Session.call setting bound entry arguments).Deepens
      (Session.call (setting.withDepth depth) bound' entry arguments) := by
  have hfind : (setting.withDepth depth).program.find? entry = setting.program.find? entry := rfl
  rw [Session.call, Session.call, hfind]
  cases setting.program.find? entry with
  | none => exact deepening.fail _
  | some function =>
    refine deepening.bind deepening.takeReturned fun _ => ?_
    refine deepening.bind (deepening.checkCount _ _ _ _) fun _ => ?_
    exact invoke_deepens setting hdepth hbound function arguments function.position

/-- **The recursion limit is only a guard.** A run that ends, and not because a call was refused,
ends in the same way with every larger limit: with the same value or the same fault, and with the
same text printed. It needs no larger bound for that, and with a larger one nothing changes. -/
theorem run_of_larger_depth (program : Program) (registry : Registry) (entry : String)
    (arguments : List Value) {depth depth' bound : Nat} {outcome : Outcome Value} {m : Machine}
    (hdepth : depth ≤ depth')
    (hrun : program.run registry depth entry arguments bound = (outcome, m))
    (hended : outcome ≠ .exhausted)
    (hallowed : ∀ d, outcome = .fault (.diagnostic d) →
      d.cause.code ≠ .maxRecursionDepthExceeded) :
    ∀ bound' ≥ bound, program.run registry depth' entry arguments bound' = (outcome, m) := by
  intro bound' hbound
  simp only [Program.run, Setting.make] at hrun ⊢
  cases hembedded : program.functions.find? fun function => registry.contains function.name with
  | some function =>
    simp only [hembedded] at hrun ⊢
    exact hrun
  | none =>
    simp only [hembedded] at hrun ⊢
    -- refusals are what the larger limit may change, and the outcome is none
    have hsame : outcome.unrefused = outcome := by
      cases outcome with
      | fault fault =>
        have hno : fault.isRefusal = false := by
          cases fault with
          | diagnostic d => simp [Fault.isRefusal, hallowed d rfl]
          | _ => rfl
        simp [Outcome.unrefused, hno]
      | _ => rfl
    have hdeepens := Session.call_deepens ⟨program, registry, depth⟩ hdepth hbound entry arguments
    have hcall : (Session.call ⟨program, registry, depth⟩ bound entry arguments).unrefused {} =
        (outcome, m) := by
      simp [Eval.unrefused, hrun, hsame]
    have heq := hdeepens.completes.eq_of_ended {} (by rwa [hcall])
    rw [hcall] at heq
    exact heq

/-- A function that calls itself as often as it is told. -/
def countdownSource : String :=
  "depth(n int) int \x7b\n  if n == 0 \x7b return 0 \x7d\n  print(n)\n" ++
    "  return 1 + depth(n - 1)\n\x7d\nmain(n int) int \x7b return depth(n) \x7d"

theorem run_of_larger_depth_countdownSource :
    ∃ program m, parse {} countdownSource = .ok program ∧
      (program.run .standard 4 "main" [.int 4] 9).1 =
        .fault (.semantic ⟨4, 14⟩ (.maxRecursionDepthExceeded 4 "depth")) ∧
      program.run .standard 5 "main" [.int 4] 9 = (.value (.int 4), m) ∧ m.output = "4321" ∧
      ∀ bound ≥ 9, program.run .standard 200 "main" [.int 4] bound = (.value (.int 4), m) := by
  have hruns : ((parse {} countdownSource).toOption.any fun program =>
      decide ((program.run .standard 4 "main" [.int 4] 9).1 =
          .fault (.semantic ⟨4, 14⟩ (.maxRecursionDepthExceeded 4 "depth")) ∧
        (program.run .standard 5 "main" [.int 4] 9).1 = .value (.int 4) ∧
        (program.run .standard 5 "main" [.int 4] 9).2.output = "4321")) = true := by
    decide +kernel
  cases hparse : parse {} countdownSource with
  | error fault =>
    rw [hparse] at hruns
    cases hruns
  | ok program =>
    rw [hparse] at hruns
    obtain ⟨hrefused, hvalue, houtput⟩ := of_decide_eq_true hruns
    have hrun : program.run .standard 5 "main" [.int 4] 9 =
        (.value (.int 4), (program.run .standard 5 "main" [.int 4] 9).2) := Prod.ext hvalue rfl
    refine ⟨program, _, rfl, hrefused, hrun, houtput, ?_⟩
    exact run_of_larger_depth program .standard "main" [.int 4] (by decide) hrun (by simp) (by simp)

end FLang
