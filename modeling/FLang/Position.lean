/-!
# Positions in a source text

A position is a line and a column, both counted from one; columns count characters.
-/

namespace FLang

/-- A place in a source text. -/
structure Position where
  /-- The line, from one. -/
  line : Nat
  /-- The column, in characters, from one. -/
  column : Nat
deriving DecidableEq, Repr

namespace Position

/-- Where every text starts. -/
def start : Position := ⟨1, 1⟩

/-- The position after a character: a newline starts the next line. -/
def after (p : Position) (c : Char) : Position :=
  if c = '\n' then ⟨p.line + 1, 1⟩ else ⟨p.line, p.column + 1⟩

/-- The short form `line:column`. -/
def render (p : Position) : String :=
  toString p.line ++ ":" ++ toString p.column

end Position

end FLang
