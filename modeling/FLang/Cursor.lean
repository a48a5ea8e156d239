import FLang.Position

/-!
# Reading a source text

A `Cursor` stands on one character of a source text and knows its position. A carriage return
directly before a newline is not a character of its own: the pair is read as one newline. At the
end of the text there is no current character, and advancing changes nothing.
-/

namespace FLang

/-- The characters of a source text: a carriage return directly before a newline is dropped. -/
def sourceChars : List Char → List Char
  | [] => []
  | '\r' :: '\n' :: rest => '\n' :: sourceChars rest
  | char :: rest => char :: sourceChars rest

/-- A place in a text that is being read. -/
structure Cursor where
  /-- What has not been read yet, from the current character on. -/
  rest : List Char
  /-- The position of the current character, or of the end of the text. -/
  position : Position
deriving DecidableEq, Repr

namespace Cursor

/-- The cursor before the first character of a text. -/
def ofText (text : String) : Cursor :=
  ⟨sourceChars text.toList, Position.start⟩

/-- The character under the cursor; none at the end of the text. -/
def current (c : Cursor) : Option Char :=
  c.rest.head?

/-- One character further. -/
def advance (c : Cursor) : Cursor :=
  match c.rest with
  | [] => c
  | char :: rest => ⟨rest, c.position.after char⟩

/-- Some characters further. -/
def advanceBy : Nat → Cursor → Cursor
  | 0, c => c
  | n + 1, c => advanceBy n c.advance

/-- The longest run of characters that satisfy `p` at the start of a text that begins at a position,
and the cursor after it. -/
def spanFrom (p : Char → Bool) : List Char → Position → List Char × Cursor
  | [], position => ([], ⟨[], position⟩)
  | char :: rest, position =>
    if p char then
      let (run, after) := spanFrom p rest (position.after char)
      (char :: run, after)
    else ([], ⟨char :: rest, position⟩)

/-- The longest run of characters that satisfy `p`, and the cursor after it. -/
def span (p : Char → Bool) (c : Cursor) : List Char × Cursor :=
  spanFrom p c.rest c.position

/-- The cursor after the longest run of characters that satisfy `p`. -/
def skip (p : Char → Bool) (c : Cursor) : Cursor :=
  (c.span p).2

/-- A run and what follows it are what was there. -/
theorem span_append_rest (p : Char → Bool) (c : Cursor) :
    (c.span p).1 ++ (c.span p).2.rest = c.rest := by
  obtain ⟨rest, position⟩ := c
  simp only [span]
  induction rest generalizing position with
  | nil => rfl
  | cons char rest ih =>
    simp only [spanFrom]
    split
    · simp [ih]
    · rfl

end Cursor

end FLang
