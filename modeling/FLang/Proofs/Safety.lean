import FLang.Session
import FLang.Proofs.Scopes.Evaluation

/-!
# Runs end with errors of the program

Whatever goes wrong in a run is an error of the program that was run, with a complete message, or an
integer that is too long to be shown. In particular, no scope is used that is not open, and no
embedded function is given arguments that it does not take.

* `Registry.Reliable` — what is asked of embedded functions: given arguments of their types, they
  answer or refuse;
* `Registry.standard_reliable` — the standard functions do;
* `parts_served` — every expression has a value, every statement can be executed and every type that
  a program can name can be converted to, where these are asked for by themselves;
* `run_faults` — how a run can fail.
-/

namespace FLang

/-- Embedded functions that answer or refuse when they are given arguments that they take. -/
def Registry.Reliable (registry : Registry) : Prop :=
  ∀ function ∈ registry.functions, ∀ arguments, function.Accepts arguments →
    ∀ fault, (function.behavior arguments).result ≠ .error (.escaped fault)

/-- Functions that never escape answer in every way that may be asked for. -/
theorem Registry.Reliable.answers {registry : Registry} (h : registry.Reliable)
    (ok : Fault → Prop) : registry.Answers ok :=
  fun function hmem arguments haccepts fault hresult =>
    absurd hresult (h function hmem arguments haccepts fault)

/-! ## The standard functions -/

theorem Value.eq_int_of_type {value : Value} (h : value.type = .basic .int) :
    ∃ n, value = .int n := by
  cases value with
  | int n => exact ⟨n, rfl⟩
  | _ => cases h

theorem Value.eq_float_of_type {value : Value} (h : value.type = .basic .float) :
    ∃ x, value = .float x := by
  cases value with
  | float x => exact ⟨x, rfl⟩
  | _ => cases h

/-- Printing is refused at most. -/
theorem Embedded.printing_ne_escaped (ending : String) (arguments : List Value) (fault : Fault) :
    (printing ending arguments).result ≠ .error (.escaped fault) := by
  rw [printing]
  cases Value.renderAll arguments with
  | ok text => exact nofun
  | error fault => exact nofun

/-- The standard functions are given what they take. -/
theorem Registry.standard_reliable : Registry.standard.Reliable := by
  intro function hmem arguments haccepts fault
  have htypes := haccepts.types
  simp only [Registry.standard, List.mem_cons, List.not_mem_nil, or_false] at hmem
  rcases hmem with rfl | rfl | rfl | rfl | rfl
  · exact Embedded.printing_ne_escaped _ arguments fault
  · exact Embedded.printing_ne_escaped _ arguments fault
  -- the arguments have the declared types, so that no other branch is taken
  · obtain ⟨a, rest, rfl, ha, hrest⟩ := List.map_eq_cons_iff.1 (htypes rfl)
    obtain ⟨b, rest, rfl, hb, -⟩ := List.map_eq_cons_iff.1 hrest
    obtain ⟨n, rfl⟩ := Value.eq_int_of_type ha
    obtain ⟨k, rfl⟩ := Value.eq_int_of_type hb
    simp only [Embedded.modulo, Embedded.divisible]
    split
    · exact nofun
    · exact nofun
  · obtain ⟨a, rest, rfl, ha, -⟩ := List.map_eq_cons_iff.1 (htypes rfl)
    obtain ⟨x, rfl⟩ := Value.eq_float_of_type ha
    simp only [Embedded.sqrt, Embedded.squareRoot]
    split
    · exact nofun
    · exact nofun
  · obtain ⟨a, rest, rfl, ha, hrest⟩ := List.map_eq_cons_iff.1 (htypes rfl)
    obtain ⟨b, rest, rfl, hb, -⟩ := List.map_eq_cons_iff.1 hrest
    obtain ⟨x, rfl⟩ := Value.eq_float_of_type ha
    obtain ⟨y, rfl⟩ := Value.eq_float_of_type hb
    simp only [Embedded.power, Embedded.powerOf]
    split
    · split
      · exact nofun
      · exact nofun
    · exact nofun

/-! ## Runs -/

/-- What a run may fail with: an error of the program, or an integer that is too long to show. -/
def Fault.IsReported : Fault → Prop
  | .diagnostic _ => True
  | .tooManyDigits _ => True
  | _ => False

/-- With reliable functions, calls of every depth support the evaluation of a tree. -/
theorem Registry.Reliable.supports {setting : Setting} (h : setting.registry.Reliable)
    (bound : Nat) : Supports Fault.IsReported setting (Evaluation.invoke setting bound) :=
  invoke_follows (fun _ => trivial) (fun _ => trivial) (h.answers _) bound

/-- A call of an entry function fails only in these ways, on any machine. -/
theorem call_follows {setting : Setting} (hregistry : setting.registry.Reliable) (bound : Nat)
    (entry : String) (arguments : List Value) (known : Arena → Option Nat → Prop) :
    (still known).Follows Fault.IsReported (fun _ => True)
      (Session.call setting bound entry arguments) := by
  have hsupports := hregistry.supports bound
  rw [Session.call]
  cases setting.program.find? entry with
  | none => exact .fail trivial
  | some function =>
    refine Discipline.Follows.takeReturned.bind fun _ _ => ?_
    refine hsupports.checkCount.bind fun _ _ => ?_
    exact hsupports.calls function arguments function.position known

theorem Program.run_meets (program : Program) {registry : Registry} (hregistry : registry.Reliable)
    (maxDepth : Nat) (entry : String) (arguments : List Value) (bound : Nat) :
    (program.run registry maxDepth entry arguments bound).1.Meets Fault.IsReported
      (fun _ => True) := by
  rw [Program.run, Setting.make]
  cases program.functions.find? fun function => registry.contains function.name with
  | some function => exact trivial
  | none =>
    have hsetting : (⟨program, registry, maxDepth⟩ : Setting).registry.Reliable := hregistry
    exact (call_follows hsetting bound entry arguments (fun _ _ => True) {} trivial).2

/-! ## Parts of a program

A part of a program can also be evaluated or executed by itself, and a value can be cast by itself.
These requests are served by kind: a part of a kind that is not known is refused. -/

/-- The kinds of expressions are all there. -/
theorem Expression.kind_mem (e : Expression) : e.kind ∈ Expression.kinds := by
  rcases e with ⟨_, value⟩ | _ | _ | _ | _ | _
  · cases value <;> simp [Expression.kind, Literal.kind, Expression.kinds]
  all_goals simp [Expression.kind, Expression.kinds]

/-- The kinds of statements are all there. -/
theorem Statement.kind_mem (s : Statement) : s.kind ∈ Statement.kinds := by
  cases s <;> simp [Statement.kind, Statement.kinds]

section
variable (setting : Setting) (bound : Nat)

/-- A part is evaluated as an expression of its kind, or there is none of its kind. -/
theorem evaluateNode_cases (node : Node) :
    (∃ e : Expression, node.kind = e.kind ∧ Session.evaluateNode setting bound node =
      Evaluation.evaluate setting (Evaluation.invoke setting bound) e) ∨
    node.kind ∉ Expression.kinds ∧ Session.evaluateNode setting bound node =
      Eval.fail (.internal (.noEvaluator node.kind)) := by
  cases node with
  | expression e => exact .inl ⟨e, rfl, rfl⟩
  | statement s =>
    cases s with
    | call position name arguments => exact .inl ⟨.call position name arguments, rfl, rfl⟩
    | _ => exact .inr ⟨by simp [Node.kind, Statement.kind, Expression.kinds], rfl⟩
  | block b => exact .inr ⟨by simp [Node.kind, Block.kind, Expression.kinds], rfl⟩

/-- A part is executed as a statement of its kind, or there is none of its kind. -/
theorem executeNode_cases (node : Node) :
    (∃ s : Statement, node.kind = s.kind ∧ Session.executeNode setting bound node =
      Evaluation.execute setting (Evaluation.invoke setting bound) bound s) ∨
    node.kind ∉ Statement.kinds ∧ Session.executeNode setting bound node =
      Eval.fail (.internal (.noExecutor node.kind)) := by
  cases node with
  | statement s => exact .inl ⟨s, rfl, rfl⟩
  | expression e =>
    rcases e with ⟨_, value⟩ | _ | _ | _ | _ | ⟨position, name, arguments⟩
    · refine .inr ⟨?_, rfl⟩
      cases value <;> simp [Node.kind, Expression.kind, Literal.kind, Statement.kinds]
    case call => exact .inl ⟨.call position name arguments, rfl, rfl⟩
    all_goals exact .inr ⟨by simp [Node.kind, Expression.kind, Statement.kinds], rfl⟩
  | block b => exact .inr ⟨by simp [Node.kind, Block.kind, Statement.kinds], rfl⟩

end

/-- A fault that is reported is not internal. -/
theorem Discipline.Follows.ne_internal {α : Type} {D : Discipline} {post : α → Prop} {x : Eval α}
    (h : D.Follows Fault.IsReported post x) {m : Machine} (hm : D.inv m) (error : InternalError) :
    (x m).1 ≠ .fault (.internal error) := by
  intro hfault
  have hmeets := (h m hm).2
  rw [hfault] at hmeets
  exact hmeets

/-- Only to `void` is there no cast, of what is not `void` already. -/
theorem Value.castTo_internal_iff (value : Value) (target : ValueType) (position : Position)
    (error : InternalError) :
    value.castTo target position = .error (.internal error) ↔
      target = .void ∧ value.type ≠ .void ∧ error = .noCast .void := by
  cases target with
  | basic type =>
    constructor
    · intro h
      rcases Value.cast_error h with ⟨cause, hcause⟩ | hdigits
      · cases hcause
      · cases hdigits
    · rintro ⟨hvoid, -⟩
      cases hvoid
  | void =>
    rw [Value.castTo]
    by_cases htype : value.type = .void
    · simp [htype]
    · simp [htype, eq_comm]

section
variable {setting : Setting} (hregistry : setting.registry.Reliable) {base : Nat} {m : Machine}
  (hm : (within base).inv m) (bound : Nat)
include hregistry hm

/-- Inside a call, a part that is asked for its value fails internally exactly if no expression is
of its kind. -/
theorem evaluateNode_internal_iff (node : Node) (error : InternalError) :
    (Session.evaluateNode setting bound node m).1 = .fault (.internal error) ↔
      node.kind ∉ Expression.kinds ∧ error = .noEvaluator node.kind := by
  rcases evaluateNode_cases setting bound node with ⟨e, hkind, heq⟩ | ⟨hnone, heq⟩
  · have hserved := ((hregistry.supports bound).evaluate e).ne_internal hm error
    rw [heq, hkind]
    exact ⟨fun h => absurd h hserved, fun h => absurd e.kind_mem h.1⟩
  · simp [heq, hnone, Eval.fail, eq_comm]

/-- Inside a call, a part that is to be executed fails internally exactly if no statement is of its
kind. -/
theorem executeNode_internal_iff (node : Node) (error : InternalError) :
    (Session.executeNode setting bound node m).1 = .fault (.internal error) ↔
      node.kind ∉ Statement.kinds ∧ error = .noExecutor node.kind := by
  rcases executeNode_cases setting bound node with ⟨s, hkind, heq⟩ | ⟨hnone, heq⟩
  · have hfollows : (within base).Follows Fault.IsReported (fun _ => True)
        (Evaluation.execute setting (Evaluation.invoke setting bound) bound s) :=
      execute_follows (hregistry.supports bound) s
    have hserved := hfollows.ne_internal hm error
    rw [heq, hkind]
    exact ⟨fun h => absurd h hserved, fun h => absurd s.kind_mem h.1⟩
  · simp [heq, hnone, Eval.fail, eq_comm]

/-- **Every part of a program is served.** Inside a call, no expression lacks a way to be evaluated,
no statement one to be executed, and no type that a program can name a conversion to it. -/
theorem parts_served (error : InternalError) :
    (∀ e, (Session.evaluateNode setting bound (.expression e) m).1 ≠ .fault (.internal error)) ∧
    (∀ s, (Session.executeNode setting bound (.statement s) m).1 ≠ .fault (.internal error)) ∧
    ∀ (value : Value) (type : BasicType) (position : Position),
      value.castTo type position ≠ .error (.internal error) := by
  refine ⟨fun e h => ?_, fun s h => ?_, fun value type position h => ?_⟩
  · exact ((evaluateNode_internal_iff hregistry hm bound _ error).1 h).1 e.kind_mem
  · exact ((executeNode_internal_iff hregistry hm bound _ error).1 h).1 s.kind_mem
  · have hvoid := ((value.castTo_internal_iff type position error).1 h).1
    cases hvoid

end

/-- **No run of a parsed program reaches an internal failure.** A run that fails does so with an
error of the program whose message has all its details, or because an integer is too long to be
shown. So no scope is used that is not open, no argument and no type of one is missing, and nothing
is used as a value that is none. -/
theorem run_faults {limits : Limits} {source : String} {program : Program} {registry : Registry}
    (h : parse limits source = .ok program) (hregistry : registry.Reliable) (maxDepth : Nat)
    (entry : String) (arguments : List Value) (bound : Nat) {fault : Fault}
    (hfault : (run limits source registry maxDepth entry arguments bound).1 = .fault fault) :
    fault.title ∉ ["InternalInterpreterError", "TypeError", "IndexError", "KeyError"] ∧
      ((∃ d, fault = .diagnostic d ∧ d.cause.code.fill d.cause.details = .ok d.cause.message) ∨
        ∃ digits, fault = .tooManyDigits digits) := by
  have hmeets := program.run_meets hregistry maxDepth entry arguments bound
  simp only [run, h] at hfault
  rw [hfault] at hmeets
  cases fault with
  | diagnostic d => exact ⟨by simp [Fault.title], .inl ⟨d, rfl, d.cause.fill_details⟩⟩
  | tooManyDigits digits => exact ⟨by simp [Fault.title], .inr ⟨digits, rfl⟩⟩
  | _ => exact hmeets.elim

/-- A program that recurses and loops before it divides by zero. -/
def failingSource : String :=
  "count(n int) int \x7b\n  if n == 0 \x7b return 0 \x7d\n  int rest := count(n - 1)\n" ++
    "  return rest + 1\n\x7d\n\nmain() int \x7b\n  int x := 3\n  while x > 0 \x7b\n" ++
    "    x = x - 1\n    println(count(x))\n  \x7d\n  return 1 / x\n\x7d\n"

theorem run_faults_failingSource :
    ∃ program fault, parse {} failingSource = .ok program ∧ Registry.standard.Reliable ∧
      (run {} failingSource .standard 100 "main" [] 20).1 = .fault fault ∧
      fault = .semantic ⟨13, 12⟩ .divisionByZero ∧
      fault.title ∉ ["InternalInterpreterError", "TypeError", "IndexError", "KeyError"] ∧
      ((∃ d, fault = .diagnostic d ∧ d.cause.code.fill d.cause.details = .ok d.cause.message) ∨
        ∃ digits, fault = .tooManyDigits digits) := by
  have hfault : (run {} failingSource .standard 100 "main" [] 20).1 =
      .fault (.semantic ⟨13, 12⟩ .divisionByZero) := by
    decide +kernel
  have hok : (parse {} failingSource).isOk = true := by decide +kernel
  cases hparse : parse {} failingSource with
  | error fault =>
    rw [hparse] at hok
    cases hok
  | ok program =>
    exact ⟨program, _, rfl, Registry.standard_reliable, hfault, rfl,
      run_faults hparse Registry.standard_reliable 100 "main" [] 20 hfault⟩

end FLang
