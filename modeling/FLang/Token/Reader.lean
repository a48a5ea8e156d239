import FLang.Token.Lexer

/-!
# Reading tokens one by one

The grammar sees the significant tokens only: newlines and comments are left out, but each token
remembers whether a line ended before it. A `Reader` stands on one of them. An error of the lexer
is met when the reader would move onto it, not earlier; beyond the end of the input there is only
more of it.
-/

namespace FLang

/-- A significant token. -/
structure Lookahead where
  /-- The token. -/
  token : Token
  /-- Whether a line ends between it and the significant token before it. -/
  newlineBefore : Bool
deriving DecidableEq

/-- The significant tokens among some tokens. The flag says whether a line has ended since the last
significant one. -/
def significant : Bool → List Token → List Lookahead
  | _, [] => []
  | newline, token :: rest =>
    match token.lexeme with
    | .endOfLine => significant true rest
    | .comment _ => significant newline rest
    | _ => ⟨token, newline⟩ :: significant false rest

/-- A place in a stream of significant tokens. -/
structure Reader where
  /-- The token under the reader. -/
  current : Lookahead
  /-- The tokens after it. -/
  ahead : List Lookahead
  /-- What follows them if not the end of the input. -/
  fault : Option Fault
  /-- How many tokens are after it. -/
  left : Nat := ahead.length
  left_eq : left = ahead.length := by rfl
deriving DecidableEq

/-- A computation that reads tokens and fails at the first fault. -/
abbrev Parse := StateT Reader (Except Fault)

namespace Reader

/-- The reader on the first significant token of a stream. -/
def ofStream (stream : TokenStream) : Except Fault Reader :=
  match significant false stream.tokens, stream.fault with
  | first :: rest, fault => .ok { current := first, ahead := rest, fault }
  | [], some fault => .error fault
  | [], none =>
    .ok { current := ⟨⟨.endOfInput, Position.start⟩, false⟩, ahead := [], fault := none }

/-- The reader on the next token. -/
def next (r : Reader) : Except Fault Reader :=
  match h : r.ahead, r.fault with
  | token :: rest, fault =>
    .ok
      { current := token
        ahead := rest
        fault
        left := r.left - 1
        left_eq := by rw [r.left_eq, h]; rfl }
  | [], some fault => .error fault
  | [], none =>
    .ok
      { current := ⟨⟨.endOfInput, r.current.token.position⟩, false⟩
        ahead := []
        fault := none }

/-- How many tokens can be read before only the end of the input is left. -/
def budget (r : Reader) : Nat :=
  r.left + 1

/-- Two readers at the same place are the same reader. -/
theorem eq_of_place {r s : Reader} (hc : r.current = s.current) (ha : r.ahead = s.ahead)
    (hf : r.fault = s.fault) : r = s := by
  obtain ⟨current, ahead, fault, left, left_eq⟩ := r
  obtain ⟨current', ahead', fault', left', left_eq'⟩ := s
  simp only at hc ha hf
  subst hc ha hf left_eq left_eq'
  rfl

/-- Moving on from a token that others follow. -/
theorem next_of_ahead {r : Reader} {token : Lookahead} {rest : List Lookahead}
    (h : r.ahead = token :: rest) :
    r.next = .ok { current := token, ahead := rest, fault := r.fault } := by
  unfold next
  split
  · next heq =>
    obtain ⟨rfl, rfl⟩ := List.cons.inj (heq.symm.trans h)
    exact congrArg Except.ok (eq_of_place rfl rfl rfl)
  · simp_all
  · simp_all

end Reader

namespace Parse

/-- The token under the reader. -/
def token : Parse Token := fun r => .ok (r.current.token, r)

/-- The lexeme under the reader. -/
def lexeme : Parse Lexeme := fun r => .ok (r.current.token.lexeme, r)

/-- Whether a line ends before the token under the reader. -/
def newlineBefore : Parse Bool := fun r => .ok (r.current.newlineBefore, r)

/-- A bound for the tokens that are still to be read. -/
def budget : Parse Nat := fun r => .ok (r.budget, r)

/-- Moves to the next token. -/
def advance : Parse Unit := fun r => r.next.map fun r' => ((), r')

/-- Fails at a position. -/
def failAt {α : Type} (position : Position) (cause : Diagnostic.Cause) : Parse α := fun _ =>
  .error (.grammatical position cause)

/-- Fails at the token under the reader. -/
def fail {α : Type} (cause : Diagnostic.Cause) : Parse α := fun r =>
  .error (.grammatical r.current.token.position cause)

/-- Consumes a mark or fails. -/
def expect (mark : Punctuation) (cause : Diagnostic.Cause) : Parse Unit := do
  if (← lexeme) = .punctuation mark then advance else fail cause

/-- Consumes a mark if it is there. -/
def accept (mark : Punctuation) : Parse Bool := do
  if (← lexeme) = .punctuation mark then
    advance
    return true
  else return false

/-- Consumes a keyword if it is there. -/
def acceptKeyword (word : Keyword) : Parse Bool := do
  if (← lexeme) = .keyword word then
    advance
    return true
  else return false

/-- Consumes a name or fails. -/
def expectIdentifier (cause : Diagnostic.Cause) : Parse (Position × String) := do
  let here ← token
  match here.lexeme with
  | .identifier name =>
    advance
    return (here.position, name)
  | _ => fail cause

/-- Runs a rule that has to match here. -/
def require {α : Type} (rule : Parse (Option α)) (cause : Diagnostic.Cause) : Parse α := do
  match ← rule with
  | some found => return found
  | none => fail cause

/-- Items that each follow a comma, at most `fuel` of them. -/
def afterCommas {α : Type} (item : Parse α) : Nat → Parse (List α)
  | 0 => return []
  | fuel + 1 => do
    if ← accept .comma then
      let first ← item
      let rest ← afterCommas item fuel
      return first :: rest
    else return []

/-- Further items that each follow a comma. -/
def moreAfterCommas {α : Type} (item : Parse α) : Parse (List α) := do
  afterCommas item (← budget)

/-- Runs a rule on a stream from its first significant token. -/
def onStream {α : Type} (rule : Parse α) (stream : TokenStream) : Except Fault (α × Reader) := do
  rule (← Reader.ofStream stream)

end Parse

end FLang
