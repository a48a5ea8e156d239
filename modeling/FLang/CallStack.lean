/-!
# Active calls

The names of the functions that are being called, the latest first. How often a name occurs is how
deep that function has recursed.
-/

namespace FLang

/-- The active calls. -/
structure CallStack where
  /-- The name of every active call. -/
  active : List String
deriving DecidableEq, Repr

namespace CallStack

/-- No call is active. -/
def empty : CallStack := ⟨[]⟩

/-- How many calls of a function are active. -/
def depth (calls : CallStack) (name : String) : Nat :=
  calls.active.count name

/-- Starts a call. -/
def push (calls : CallStack) (name : String) : CallStack :=
  ⟨name :: calls.active⟩

/-- Ends a call; nothing changes if none of that function is active. -/
def pop (calls : CallStack) (name : String) : CallStack :=
  ⟨calls.active.erase name⟩

/-- A call counts for its own name. -/
@[simp] theorem depth_push (calls : CallStack) (name other : String) :
    (calls.push name).depth other = calls.depth other + if name = other then 1 else 0 := by
  simp [push, depth, List.count_cons]

/-- A call that ends is no longer counted. -/
@[simp] theorem depth_pop (calls : CallStack) (name other : String) :
    (calls.pop name).depth other = calls.depth other - if name = other then 1 else 0 := by
  simp [pop, depth, List.count_erase]

end CallStack

end FLang
