import FLang.Value

/-!
# Scopes

The variables of a running program live in scopes. All open scopes stand in one arena, in the order
in which they were opened, and know their parent by its index. Closing a scope also closes what was
opened after it.

A scope that belongs to the call of a function knows the type that the function returns; names are
not looked up beyond it.
-/

namespace FLang

/-- A variable. -/
structure Variable where
  /-- What it holds now. -/
  value : Value
  /-- The type that it was declared with. -/
  type : ValueType
  /-- Where it was declared. -/
  position : Position
deriving DecidableEq

/-- A scope: a parent, the type that is to be returned if it belongs to a call, and variables of
different names. -/
structure Scope where
  /-- The index of the scope around this one. -/
  parent : Option Nat
  /-- What the call returns that opened this scope. -/
  returnType : Option ValueType
  /-- The variables declared here. -/
  bindings : List (String × Variable)
deriving DecidableEq

/-- The open scopes. -/
structure Arena where
  scopes : Array Scope
deriving DecidableEq

namespace Scope

/-- The variable of a name in this scope. -/
def find? (scope : Scope) (name : String) : Option Variable :=
  scope.bindings.lookup name

/-- Adds a variable. -/
def insert (scope : Scope) (name : String) (entry : Variable) : Scope :=
  { scope with bindings := (name, entry) :: scope.bindings }

/-- Changes the value of a variable. -/
def update (scope : Scope) (name : String) (value : Value) : Scope :=
  { scope with
    bindings := scope.bindings.map fun (key, entry) =>
      if key = name then (key, { entry with value }) else (key, entry) }

end Scope

namespace Arena

/-- No scope is open. -/
def empty : Arena := ⟨#[]⟩

/-- How many scopes are open. -/
def size (arena : Arena) : Nat :=
  arena.scopes.size

/-- Opens a scope; its index is the number of scopes that were open before. -/
def openScope (arena : Arena) (parent : Option Nat) (returnType : Option ValueType) : Arena :=
  ⟨arena.scopes.push { parent, returnType, bindings := [] }⟩

/-- Closes the scope of an index and every scope opened after it. -/
def close (arena : Arena) (index : Nat) : Except Fault Arena :=
  if index < arena.size then .ok ⟨arena.scopes.take index⟩
  else .error (.internal (.scopeNotOpen index))

/-- Searches the scopes from an index outward, at most `fuel` of them, up to and including the
first one that belongs to a call. -/
def searchUpTo {α : Type} (arena : Arena) (found? : Nat → Scope → Option α) :
    Nat → Option Nat → Except Fault (Option α)
  | _, none => .ok none
  | 0, some _ => .ok none
  | fuel + 1, some index =>
    match arena.scopes[index]? with
    | none => .error .missingItem
    | some scope =>
      match found? index scope with
      | some result => .ok (some result)
      | none =>
        if scope.returnType.isSome then .ok none
        else arena.searchUpTo found? fuel scope.parent

/-- Searches the scopes from an index outward, up to and including the first one that belongs to a
call. A chain of parents visits no scope twice. -/
def search {α : Type} (arena : Arena) (found? : Nat → Scope → Option α) (start : Option Nat) :
    Except Fault (Option α) :=
  arena.searchUpTo found? (arena.size + 1) start

/-- The variable that a name means in a scope, with the index of the scope that declares it. -/
def resolve (arena : Arena) (start : Option Nat) (name : String) :
    Except Fault (Option (Nat × Variable)) :=
  arena.search (fun index scope => (scope.find? name).map fun entry => (index, entry)) start

/-- The variable that a name means in a scope. -/
def lookup (arena : Arena) (start : Option Nat) (name : String) :
    Except Fault (Option Variable) :=
  (arena.resolve start name).map (·.map Prod.snd)

/-- Checks that a value has a type, at a position. -/
def checkType (value : Value) (expected : ValueType) (position : Position) : Except Fault Unit :=
  if value.type = expected then .ok ()
  else .error (.semantic position (.typeMismatch value.type expected))

/-- Declares a variable in a scope, which must not have one of that name. -/
def declare (arena : Arena) (index : Option Nat) (name : String) (value : Value) (type : ValueType)
    (position : Position) : Except Fault Arena :=
  match index with
  | none => .error .noScope
  | some index =>
    match arena.scopes[index]? with
    | none => .error .missingItem
    | some scope =>
      match scope.find? name with
      | some earlier => .error (.semantic position (.redeclaredVariable name earlier.position))
      | none => do
        checkType value type position
        return ⟨arena.scopes.modify index (·.insert name { value, type, position })⟩

/-- Assigns a value to the variable that a name means in a scope. -/
def assign (arena : Arena) (start : Option Nat) (name : String) (value : Value)
    (position : Position) : Except Fault Arena := do
  match ← arena.resolve start name with
  | none => .error (.semantic position (.undefinedVariable name))
  | some (index, entry) =>
    checkType value entry.type position
    return ⟨arena.scopes.modify index (·.update name value)⟩

/-- The value of the variable that a name means in a scope. -/
def valueOf (arena : Arena) (start : Option Nat) (name : String) (position : Position) :
    Except Fault Value := do
  match ← arena.lookup start name with
  | none => .error (.semantic position (.undefinedVariable name))
  | some entry => return entry.value

/-- The type that is to be returned in a scope: that of the innermost call around it. -/
def returnTypeOf (arena : Arena) (start : Option Nat) : Except Fault ValueType := do
  return (← arena.search (fun _ scope => scope.returnType) start).getD .void

end Arena

end FLang
