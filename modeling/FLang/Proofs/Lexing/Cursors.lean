import FLang.Token.Lexer

/-!
# Cursors that move

A cursor that moves over some characters leaves exactly them behind (`Cursor.Passes`), and its
position is the one behind everything that has been read (`Position.behind`). Whatever the lexer
does, it moves its cursor in this way (`ahead_lexeme`): no character is lost and none is read twice,
also where it fails.
-/

namespace FLang

open Lexer

/-! ## Positions -/

namespace Position

/-- The position behind some characters from the start of a text: the lines before it are the
newlines, and the columns before it are the characters behind the last one. -/
def behind (chars : List Char) : Position :=
  ⟨chars.count '\n' + 1, (chars.reverse.takeWhile (· ≠ '\n')).length + 1⟩

/-- The position behind a text moves on with each character. -/
@[simp] theorem behind_concat (chars : List Char) (c : Char) :
    behind (chars ++ [c]) = (behind chars).after c := by
  by_cases hc : c = '\n'
  · subst hc
    simp [behind, after]
  · simp [behind, after, hc]

/-- A position comes before another one in the order of reading. -/
def Before (p q : Position) : Prop :=
  p.line < q.line ∨ p.line = q.line ∧ p.column < q.column

instance (p q : Position) : Decidable (p.Before q) :=
  inferInstanceAs (Decidable (_ ∨ _))

/-- Positions are in order. -/
theorem Before.trans {p q r : Position} (h : p.Before q) (h' : q.Before r) : p.Before r := by
  unfold Before at *
  omega

/-- Every character moves the position on. -/
theorem before_after (p : Position) (c : Char) : p.Before (p.after c) := by
  unfold Before after
  split
  · exact .inl (Nat.lt_succ_self _)
  · exact .inr ⟨rfl, Nat.lt_succ_self _⟩

/-- What follows some characters comes after them. -/
theorem behind_before {text : List Char} (before : List Char) (h : text ≠ []) :
    (behind before).Before (behind (before ++ text)) := by
  induction text generalizing before with
  | nil => exact absurd rfl h
  | cons c text ih =>
    have hstep : (behind before).Before (behind (before ++ [c])) := by
      rw [behind_concat]
      exact before_after _ c
    cases text with
    | nil => exact hstep
    | cons d text =>
      have hrest := ih (before ++ [c]) (by simp)
      rw [List.append_assoc] at hrest
      exact hstep.trans hrest

end Position

/-! ## Cursors -/

namespace Cursor

/-- One cursor is some characters further than another. -/
structure Passes (c : Cursor) (text : List Char) (c' : Cursor) : Prop where
  /-- The characters stand between them. -/
  rest : c.rest = text ++ c'.rest
  /-- The positions differ by the same characters. -/
  position : ∀ before, c.position = .behind before → c'.position = .behind (before ++ text)

/-- One cursor stands behind another. -/
def Ahead (c c' : Cursor) : Prop :=
  ∃ text, c.Passes text c'

/-- The characters between two cursors are those that the one has left and the other has not. -/
theorem Ahead.passes {c c' : Cursor} (h : c.Ahead c') {text : List Char}
    (hrest : c.rest = text ++ c'.rest) : c.Passes text c' := by
  obtain ⟨text', h⟩ := h
  obtain rfl : text = text' := List.append_cancel_right (hrest.symm.trans h.rest)
  exact h

theorem Ahead.refl (c : Cursor) : c.Ahead c :=
  ⟨[], rfl, fun before h => by rwa [List.append_nil]⟩

/-- A cursor that moves on twice has moved on. -/
theorem Ahead.trans {c c' c'' : Cursor} (h : c.Ahead c') (h' : c'.Ahead c'') : c.Ahead c'' := by
  obtain ⟨text, h⟩ := h
  obtain ⟨text', h'⟩ := h'
  refine ⟨text ++ text', ?_, fun before hb => ?_⟩
  · rw [h.rest, h'.rest, List.append_assoc]
  · rw [h'.position _ (h.position before hb), List.append_assoc]

/-- What a cursor further on has left is the end of what one before it has. -/
theorem Ahead.suffix {c c' : Cursor} (h : c.Ahead c') : c'.rest <:+ c.rest := by
  obtain ⟨text, h⟩ := h
  exact ⟨text, h.rest.symm⟩

/-- The current character is the first of what remains. -/
theorem rest_of_current {c : Cursor} {char : Char} (h : c.current = some char) :
    c.rest = char :: c.advance.rest := by
  obtain ⟨rest, position⟩ := c
  obtain ⟨rest, rfl⟩ := List.head?_eq_some_iff.1 h
  rfl

theorem ahead_cons (char : Char) (rest : List Char) (position : Position) :
    Ahead ⟨char :: rest, position⟩ ⟨rest, position.after char⟩ :=
  ⟨[char], rfl, fun before h => by
    rw [Position.behind_concat]
    exact congrArg (·.after char) h⟩

theorem ahead_advance (c : Cursor) : c.Ahead c.advance := by
  obtain ⟨rest, position⟩ := c
  cases rest with
  | nil => exact .refl _
  | cons char rest => exact ahead_cons char rest position

theorem ahead_advanceBy (n : Nat) (c : Cursor) : c.Ahead (advanceBy n c) := by
  induction n generalizing c with
  | zero => exact .refl c
  | succ n ih => exact c.ahead_advance.trans (ih c.advance)

/-- Reading a run of characters moves the cursor on. -/
theorem ahead_spanFrom (p : Char → Bool) (chars : List Char) (position : Position) :
    Ahead ⟨chars, position⟩ (spanFrom p chars position).2 := by
  induction chars generalizing position with
  | nil => exact .refl _
  | cons char chars ih =>
    rw [spanFrom]
    split
    · exact (ahead_cons char chars position).trans (ih _)
    · exact .refl _

/-- A run ends at the first character that does not satisfy `p`. -/
theorem head_spanFrom {p : Char → Bool} {chars : List Char} {position : Position} {c : Char}
    (h : (spanFrom p chars position).2.rest.head? = some c) : p c = false := by
  induction chars generalizing position with
  | nil => cases h
  | cons d chars ih =>
    rw [spanFrom] at h
    split at h
    · exact ih h
    · next hd =>
      obtain rfl : d = c := by simpa using h
      simpa using hd

end Cursor

open Cursor (Ahead ahead_cons ahead_advance)

/-- The body of a string moves it on, whether its end is found or not. -/
theorem ahead_stringBody (limit : Nat) (start : Position) (chars : List Char) (position : Position)
    (room : Nat) (read : List Char) :
    Ahead ⟨chars, position⟩ (stringBody limit start chars position room read).2 := by
  fun_induction stringBody limit start chars position room read with
  | case1 => exact .refl _
  | case2 rest position => exact ahead_cons '"' rest position
  | case3 position => exact ahead_cons '\\' [] position
  | case4 escape rest position => exact ahead_cons '\\' (escape :: rest) position
  | case5 escape rest position => exact ahead_cons '\\' (escape :: rest) position
  | case6 escape rest position _ _ _ _ _ ih =>
    exact (ahead_cons '\\' (escape :: rest) position).trans ((ahead_cons escape rest _).trans ih)
  | case7 => exact .refl _
  | case8 char rest position _ _ _ _ _ ih => exact (ahead_cons char rest position).trans ih

/-- Digits move it on, up to the limit. -/
theorem ahead_digitRun (limit : Nat) (chars : List Char) (position : Position) (d : Digits) :
    Ahead ⟨chars, position⟩ (digitRun limit chars position d).2 := by
  induction chars generalizing position d with
  | nil => exact .refl _
  | cons c chars ih =>
    rw [digitRun]
    split
    · simp only
      split
      · exact .refl _
      · exact (ahead_cons c chars position).trans (ih _ _)
    · exact .refl _

/-- A run of digits ends at the first character that is no digit. -/
theorem head_digitRun {limit : Nat} {chars : List Char} {position : Position} {d d' : Digits}
    {after : Cursor} (h : digitRun limit chars position d = (some d', after)) {c : Char}
    (hc : after.rest.head? = some c) : c.isDigit = false := by
  induction chars generalizing position d with
  | nil =>
    obtain ⟨-, rfl⟩ := Prod.mk.inj h
    cases hc
  | cons e chars ih =>
    rw [digitRun] at h
    split at h
    · simp only at h
      split at h
      · cases h
      · exact ih h
    · next he =>
      obtain ⟨-, rfl⟩ := Prod.mk.inj h
      obtain rfl : e = c := by simpa using hc
      simpa using he

/-- A number moves it on, with its fraction or without. -/
theorem ahead_number (limits : Limits) (c : Cursor) : c.Ahead (Lexer.number limits c).2 := by
  have hwhole := ahead_digitRun limits.intLimit c.rest c.position ⟨0, 0⟩
  unfold Lexer.number digits
  split
  · next heq => rwa [heq] at hwhole
  · next whole after heq =>
    rw [heq] at hwhole
    split
    · have hfraction := ahead_digitRun limits.intLimit after.advance.rest after.advance.position
        ⟨0, 0⟩
      split
      · next hlast =>
        rw [hlast] at hfraction
        exact hwhole.trans (after.ahead_advance.trans hfraction)
      · next hlast =>
        rw [hlast] at hfraction
        exact hwhole.trans (after.ahead_advance.trans hfraction)
    · exact hwhole

/-- A symbol moves it on by its characters. -/
theorem ahead_symbol (first : Char) (c : Cursor) : c.Ahead (Lexer.symbol first c).2 := by
  unfold Lexer.symbol
  split
  · exact c.ahead_advance.trans c.advance.ahead_advance
  · split <;> exact c.ahead_advance

/-- A word moves it on. -/
theorem ahead_word (limits : Limits) (c : Cursor) : c.Ahead (Lexer.word limits c).2 := by
  unfold Lexer.word
  simp only
  split
  · exact c.ahead_advanceBy _
  · exact Cursor.ahead_spanFrom _ c.rest c.position

/-- **Reading a lexeme loses no character**, whether it is found or not. -/
theorem ahead_lexeme (limits : Limits) (c : Cursor) : c.Ahead (Lexer.lexeme limits c).2 := by
  unfold Lexer.lexeme
  split
  · exact .refl c
  split
  · exact c.ahead_advance
  split
  · exact c.ahead_advance.trans (Cursor.ahead_spanFrom _ c.advance.rest c.advance.position)
  split
  · exact c.ahead_advance.trans (ahead_stringBody _ _ c.advance.rest c.advance.position _ _)
  split
  · exact ahead_symbol _ c
  split
  · exact ahead_number limits c
  split
  · exact ahead_word limits c
  · exact .refl c

theorem ahead_skip (c : Cursor) : c.Ahead (c.skip isBlank) :=
  Cursor.ahead_spanFrom isBlank c.rest c.position

end FLang
