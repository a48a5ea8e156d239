/-!
# Limits

Capacities that a user sets: how long names and strings may be, how large the number of a literal,
and how deep a function may recurse. All of them are positive.

How deep a program may be nested is up to the host that reads it. The grammar sets no bound, so
nothing but the point at which a deeper program is refused depends on it.
-/

namespace FLang

/-- How deep expressions and blocks may be nested in one another, unless the host says otherwise. -/
def Parser.nestingLimit : Nat := 1000

/-- What a source text may hold: lexical capacities, and the nesting that the host can follow. -/
structure Limits where
  /-- The most characters of a name. -/
  identifierLimit : Nat := 500
  /-- The most characters of a string literal. -/
  stringLimit : Nat := 1000
  /-- The largest number that the digits before or after a literal's point may denote. -/
  intLimit : Nat := 9223372036854775807
  /-- How deep expressions and blocks may be nested in one another. -/
  nestingLimit : Nat := Parser.nestingLimit
deriving DecidableEq, Repr

/-- How often one function may be active at the same time, unless a user says otherwise. -/
def defaultRecursionDepth : Nat := 200

/-- Names of the settings that are not positive. -/
def badSettings (settings : List (String × Int)) : List String :=
  (settings.filter fun setting => setting.2 ≤ 0).map Prod.fst

/-- Checks lexical capacities; the settings that are not positive are the error. -/
def Limits.ofInts (identifierLimit stringLimit intLimit : Int) : Except (List String) Limits :=
  match badSettings [("identifier_limit", identifierLimit), ("int_limit", intLimit),
      ("string_limit", stringLimit)] with
  | [] => .ok
    { identifierLimit := identifierLimit.toNat
      stringLimit := stringLimit.toNat
      intLimit := intLimit.toNat }
  | bad => .error bad

/-- Checks a recursion depth in the same way. -/
def recursionDepthOfInt (depth : Int) : Except (List String) Nat :=
  match badSettings [("max_recursion_depth", depth)] with
  | [] => .ok depth.toNat
  | bad => .error bad

end FLang
