import FLang.Embedded.Standard
import FLang.Evaluation
import FLang.Tree.Parser

/-!
# Sessions

What a user can ask of a program that is loaded: to call one of its functions, or to run, evaluate
or execute a part of it. Each request is a computation on the machine, which keeps its state between
requests, also after a fault.

`run` is the whole way from a source text to the value of its entry function.
-/

namespace FLang

namespace Session

open Eval Evaluation

/-- A bound on calls and loops that no run reaches. -/
def ample : Nat := 4611686018427387904

/-- Calls a function of the program by name. A value that is still on its way is dropped. -/
def call (setting : Setting) (bound : Nat) (entry : String) (arguments : List Value) :
    Eval Value :=
  match setting.program.find? entry with
  | none => fail (.diagnostic { stage := .semantic, cause := .undefinedFunction entry })
  | some function => do
    let _ ← takeReturned
    checkCount entry function.parameters.length arguments.length function.position
    invoke setting bound function arguments function.position

/-- Runs a block as the body of a function with this return type. The value that the block returns
stays on its way. -/
def runBlock (setting : Setting) (bound : Nat) (block : Block) (returnType : ValueType) :
    Eval Value := do
  withScope (some returnType)
    (executeAll setting (invoke setting bound) bound block.statements)
  ask fun m => .ok (m.pending.getD .void)

/-- The value of a part of the program. Calls have one, also where they stand as statements. -/
def evaluateNode (setting : Setting) (bound : Nat) : Node → Eval Value
  | .expression e => evaluate setting (invoke setting bound) e
  | .statement (.call position name arguments) =>
    evaluate setting (invoke setting bound) (.call position name arguments)
  | node => fail (.internal (.noEvaluator node.kind))

/-- Executes a part of the program. Calls can be executed, also where they stand as expressions. -/
def executeNode (setting : Setting) (bound : Nat) : Node → Eval Unit
  | .statement s => execute setting (invoke setting bound) bound s
  | .expression (.call position name arguments) =>
    execute setting (invoke setting bound) bound (.call position name arguments)
  | node => fail (.internal (.noExecutor node.kind))

end Session

/-- Calls the entry function of a program: how that ends, and the machine afterwards. -/
def Program.run (program : Program) (registry : Registry) (maxDepth : Nat) (entry : String)
    (arguments : List Value) (bound : Nat) : Outcome Value × Machine :=
  match Setting.make program registry maxDepth with
  | .error fault => (.fault fault, {})
  | .ok setting => Session.call setting bound entry arguments {}

/-- Runs the program that a source text denotes. -/
def run (limits : Limits) (source : String) (registry : Registry) (maxDepth : Nat)
    (entry : String) (arguments : List Value) (bound : Nat) : Outcome Value × Machine :=
  match parse limits source with
  | .error fault => (.fault fault, {})
  | .ok program => program.run registry maxDepth entry arguments bound

end FLang
