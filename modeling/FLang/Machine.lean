import FLang.CallStack
import FLang.Embedded
import FLang.Scope
import FLang.Value.Operation

/-!
# The state of a running program

`Machine` is what a running program has: its open scopes and which of them is current, its active
calls, the value that a `return` has produced and that no call has taken yet, and what was printed.

`Eval` is a computation on a machine. It ends with a value, with a fault, or by exhausting the
bound on its loops and calls; the machine is there in each case. Scopes and calls that a computation
opens are closed again however it ends (`Eval.withScope`, `Eval.whileActive`).
-/

namespace FLang

/-- The state of a running program. -/
structure Machine where
  /-- The open scopes. -/
  arena : Arena := .empty
  /-- The index of the current scope; none outside of every call. -/
  scope : Option Nat := none
  /-- The active calls. -/
  calls : CallStack := .empty
  /-- The value of a `return` on its way to the call that it belongs to. -/
  pending : Option Value := none
  /-- Everything that was printed. -/
  output : String := ""
deriving DecidableEq

/-- How a computation ends. -/
inductive Outcome (α : Type) where
  /-- With a value. -/
  | value (a : α)
  /-- With a fault. -/
  | fault (f : Fault)
  /-- The bound on loops and calls was reached before the end. -/
  | exhausted
deriving DecidableEq

/-- A computation on a machine. -/
def Eval (α : Type) : Type :=
  Machine → Outcome α × Machine

namespace Eval

variable {α β : Type}

/-- Yields a value and changes nothing. -/
@[inline]
protected def pure (a : α) : Eval α := fun m => (.value a, m)

/-- Goes on with the value of a computation. -/
@[inline]
protected def bind (x : Eval α) (f : α → Eval β) : Eval β := fun m =>
  match x m with
  | (.value a, m') => f a m'
  | (.fault fault, m') => (.fault fault, m')
  | (.exhausted, m') => (.exhausted, m')

instance : Monad Eval where
  pure := Eval.pure
  bind := Eval.bind

/-- Ends with a fault. -/
def fail (fault : Fault) : Eval α := fun m => (.fault fault, m)

/-- Ends because the bound is reached. -/
def exhausted : Eval α := fun m => (.exhausted, m)

/-- Ends with an error of the program at a position. -/
def raise (position : Position) (cause : Diagnostic.Cause) : Eval α :=
  fail (.semantic position cause)

/-- A result that does not depend on the machine. -/
def ofExcept : Except Fault α → Eval α
  | .ok a => Eval.pure a
  | .error fault => fail fault

/-- A result that depends on the machine and does not change it. -/
def ask (f : Machine → Except Fault α) : Eval α := fun m => ofExcept (f m) m

/-- Changes the open scopes. -/
def updateArena (f : Arena → Option Nat → Except Fault Arena) : Eval Unit := fun m =>
  match f m.arena m.scope with
  | .ok arena => (.value (), { m with arena })
  | .error fault => (.fault fault, m)

/-- The value of a variable. -/
def readVariable (name : String) (position : Position) : Eval Value :=
  ask fun m => m.arena.valueOf m.scope name position

/-- Declares a variable in the current scope. -/
def declare (name : String) (value : Value) (type : ValueType) (position : Position) : Eval Unit :=
  updateArena fun arena scope => arena.declare scope name value type position

/-- Assigns to a variable. -/
def assign (name : String) (value : Value) (position : Position) : Eval Unit :=
  updateArena fun arena scope => arena.assign scope name value position

/-- Prints a text. -/
def emit (text : String) : Eval Unit := fun m =>
  (.value (), { m with output := m.output ++ text })

/-- Whether a `return` is on its way. -/
def isReturning : Eval Bool := fun m => (.value m.pending.isSome, m)

/-- Puts a value on its way to the call that it belongs to, if it has the type that the call
returns. -/
def giveBack (value : Value) (position : Position) : Eval Unit := do
  let expected ← ask fun m => m.arena.returnTypeOf m.scope
  if value.type = expected then fun m => (.value (), { m with pending := some value })
  else raise position (.invalidReturnType value.type expected)

/-- Takes the value that is on its way; the absence of a value if none is. -/
def takeReturned : Eval Value := fun m =>
  (.value (m.pending.getD .void), { m with pending := none })

/-- Runs a computation in a new scope inside the current one, and closes the scope again. -/
def withScope (returnType : Option ValueType) (body : Eval α) : Eval α := fun m =>
  let index := m.arena.size
  match body { m with arena := m.arena.openScope m.scope returnType, scope := some index } with
  | (outcome, m') =>
    match m'.arena.close index with
    | .ok arena => (outcome, { m' with arena, scope := m.scope })
    | .error fault => (.fault fault, { m' with scope := m.scope })

/-- Runs a computation while a call of a function is active. -/
def whileActive (name : String) (body : Eval α) : Eval α := fun m =>
  match body { m with calls := m.calls.push name } with
  | (outcome, m') => (outcome, { m' with calls := m'.calls.pop name })

/-- Repeats a body as long as a condition holds and no `return` is on its way, at most so many
times. -/
def iterate (condition : Eval Bool) (body : Eval Unit) : Nat → Machine → Outcome Unit × Machine
  | 0, m => (.exhausted, m)
  | bound + 1, m =>
    match condition m with
    | (.fault fault, m') => (.fault fault, m')
    | (.exhausted, m') => (.exhausted, m')
    | (.value false, m') => (.value (), m')
    | (.value true, m') =>
      match body m' with
      | (.fault fault, m'') => (.fault fault, m'')
      | (.exhausted, m'') => (.exhausted, m'')
      | (.value (), m'') =>
        if m''.pending.isSome then (.value (), m'') else iterate condition body bound m''

end Eval

end FLang
