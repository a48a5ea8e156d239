import FLang.Cursor
import FLang.Decimal.Reading
import FLang.Limits
import FLang.Text.Classes
import FLang.Token

/-!
# Splitting a text into tokens

`Lexer.next` reads one token. Blanks other than newlines separate tokens and are dropped. The first
character of a token decides its class, and a token is as long as its class allows. A capacity that
is exceeded, a string that does not end and a character that starts no token are errors; the cursor
then stays where the error was found, so that reading can go on.

`tokenStream` reads a whole text: the tokens up to the end of the input or up to the first error.
-/

namespace FLang.Lexer

/-- What reading a token gives, and where the cursor stands afterwards. -/
abbrev Result := Except Fault Lexeme × Cursor

/-- A blank inside a line. -/
def isBlank (c : Char) : Bool :=
  c ≠ '\n' && Text.isSpace c

/-- A comment: everything from the hash sign to the end of the line. -/
def comment (c : Cursor) : Result :=
  let (text, after) := c.advance.span (· ≠ '\n')
  (.ok (.comment (String.ofList text)), after)

/-- The character that an escape sequence stands for, by the character after the backslash. -/
def unescape? : Char → Option Char
  | 'n' => some '\n'
  | 't' => some '\t'
  | '"' => some '"'
  | '\\' => some '\\'
  | _ => none

/-- The rest of a string literal that started at `start`, after its characters `read` (the last
one first), with room for some more. The closing quote is consumed. -/
def stringBody (limit : Nat) (start : Position) :
    List Char → Position → Nat → List Char → Result
  | [], position, _, _ => (.error (.lexical position .stringNotClosed), ⟨[], position⟩)
  | '"' :: rest, position, _, read =>
    (.ok (.constant (.string (String.ofList read.reverse))), ⟨rest, position.after '"'⟩)
  | ['\\'], position, _, _ =>
    let after := position.after '\\'
    (.error (.lexical after .stringNotClosed), ⟨[], after⟩)
  | '\\' :: escape :: rest, position, room, read =>
    let here : Cursor := ⟨escape :: rest, position.after '\\'⟩
    match unescape? escape, room with
    | none, _ => (.error (.lexical position (.invalidEscaping escape)), here)
    | some _, 0 => (.error (.lexical start (.stringCapacityExceeded limit)), here)
    | some char, room + 1 =>
      stringBody limit start rest (here.position.after escape) room (char :: read)
  | char :: rest, position, 0, _ =>
    (.error (.lexical start (.stringCapacityExceeded limit)), ⟨char :: rest, position⟩)
  | char :: rest, position, room + 1, read =>
    stringBody limit start rest (position.after char) room (char :: read)

/-- A string literal, from its opening quote. -/
def string (limits : Limits) (c : Cursor) : Result :=
  stringBody limits.stringLimit c.position c.advance.rest c.advance.position limits.stringLimit []

/-- An operator or a mark, of two characters where the second one fits. A first character that
needs a second one and has none is an error behind it. -/
def symbol (first : Char) (c : Cursor) : Result :=
  match c.advance.current.bind (Lexeme.ofPair? first) with
  | some lexeme => (.ok lexeme, c.advance.advance)
  | none =>
    match Lexeme.ofChar? first with
    | some lexeme => (.ok lexeme, c.advance)
    | none => (.error (.lexical c.position (.noneTokenMatch first)), c.advance)

/-- Digits read so far, as a number and a count. -/
structure Digits where
  /-- The number that the digits denote. -/
  value : Nat
  /-- How many there are. -/
  count : Nat
deriving DecidableEq, Repr

/-- Whether one more digit takes a number past a limit. The number is not computed for this: what
the digit leaves of the limit is divided instead, which is negative where the digit alone is too
large. -/
def passes (limit value digit : Nat) : Bool :=
  ((limit : Int) - digit) / 10 < value

/-- The test that is made before a digit is taken says that the number would be too large. -/
@[simp] theorem passes_iff {limit value digit : Nat} :
    passes limit value digit = true ↔ limit < value * 10 + digit := by
  rw [passes, decide_eq_true_eq]
  omega

/-- The run of digits at the start of a text that begins at a position, after some digits, as long
as its value stays within a limit. None is the value when the limit is passed; the cursor then
stands on the digit that passed it. -/
def digitRun (limit : Nat) : List Char → Position → Digits → Option Digits × Cursor
  | [], position, digits => (some digits, ⟨[], position⟩)
  | char :: rest, position, digits =>
    if char.isDigit then
      let digit := char.toNat - '0'.toNat
      if passes limit digits.value digit then (none, ⟨char :: rest, position⟩)
      else
        digitRun limit rest (position.after char) ⟨digits.value * 10 + digit, digits.count + 1⟩
    else (some digits, ⟨char :: rest, position⟩)

/-- The run of digits at the cursor. -/
def digits (limit : Nat) (c : Cursor) : Option Digits × Cursor :=
  digitRun limit c.rest c.position ⟨0, 0⟩

/-- The text of a number from the digits on both sides of its point. Those behind the point get back
the zeros that their value does not show. None if a side has too many digits for a text. -/
def floatText? (whole fraction : Digits) : Option String :=
  if Decimal.fits whole.value && Decimal.fits fraction.value then
    some (String.ofList (Decimal.natDigits whole.value ++
      '.' :: List.leftpad fraction.count '0' (Decimal.natDigits fraction.value)))
  else none

/-- The float of a literal, from the digits on both sides of its point. Without digits after the
point the number before it has to lie in the range of floats; with them the number goes through
its text. -/
def floatOf (whole fraction : Digits) : Except Fault Float :=
  if fraction.count = 0 then
    match Decimal.intToFloat? whole.value with
    | some x => .ok x
    | none => .error .tooLargeForFloat
  else
    match (floatText? whole fraction).bind Decimal.readFloat? with
    | some x => .ok x
    | none => .error (.tooManyDigits none)

/-- A number: digits, and a point with further digits for a float. -/
def number (limits : Limits) (c : Cursor) : Result :=
  match digits limits.intLimit c with
  | (none, after) => (.error (.lexical c.position .intCapacityExceeded), after)
  | (some whole, after) =>
    if after.current = some '.' then
      match digits limits.intLimit after.advance with
      | (none, last) => (.error (.lexical c.position .floatCapacityExceeded), last)
      | (some fraction, last) =>
        ((floatOf whole fraction).map fun x => .constant (.float x), last)
    else (.ok (.constant (.int whole.value)), after)

/-- A name or a reserved word. -/
def word (limits : Limits) (c : Cursor) : Result :=
  let (chars, after) := c.span Text.isNamePart
  if chars.length > limits.identifierLimit then
    (.error (.lexical c.position (.identifierCapacityExceeded limits.identifierLimit)),
     c.advanceBy limits.identifierLimit)
  else (.ok (Lexeme.ofWord (String.ofList chars)), after)

/-- Whether a character starts an operator or a mark. -/
def startsSymbol (c : Char) : Bool :=
  c = ':' || (Lexeme.ofChar? c).isSome

/-- The lexeme that starts with the character under the cursor. -/
def lexeme (limits : Limits) (c : Cursor) : Result :=
  match c.current with
  | none => (.ok .endOfInput, c)
  | some char =>
    if char = '\n' then (.ok .endOfLine, c.advance)
    else if char = '#' then comment c
    else if char = '"' then string limits c
    else if startsSymbol char then symbol char c
    else if char.isDigit then number limits c
    else if Text.isLetter char then word limits c
    else (.error (.lexical c.position (.noneTokenMatch char)), c)

/-- The next token, and the cursor after it. -/
def next (limits : Limits) (c : Cursor) : Except Fault Token × Cursor :=
  let start := c.skip isBlank
  let (result, after) := lexeme limits start
  (result.map fun found => ⟨found, start.position⟩, after)

end FLang.Lexer

namespace FLang

/-- The tokens of a text in order, and how they end. -/
structure TokenStream where
  /-- The tokens that could be read. -/
  tokens : List Token
  /-- What stopped the reading before the end of the input. -/
  fault : Option Fault
deriving DecidableEq

/-- Reads at most `fuel` tokens. -/
def tokenStreamFrom (limits : Limits) : Nat → Cursor → TokenStream
  | 0, _ => ⟨[], none⟩
  | fuel + 1, c =>
    match Lexer.next limits c with
    | (.error fault, _) => ⟨[], some fault⟩
    | (.ok token, after) =>
      if token.lexeme = .endOfInput then ⟨[token], none⟩
      else
        let more := tokenStreamFrom limits fuel after
        { more with tokens := token :: more.tokens }

/-- All tokens of a text, the end of the input included, up to the first error. Every token but
the last one takes at least one character. -/
def tokenStream (limits : Limits) (source : String) : TokenStream :=
  let c := Cursor.ofText source
  tokenStreamFrom limits (c.rest.length + 1) c

/-- All tokens of a text, the end of the input included, or the first error. -/
def tokenize (limits : Limits) (source : String) : Except Fault (List Token) :=
  let stream := tokenStream limits source
  match stream.fault with
  | some fault => .error fault
  | none => .ok stream.tokens

end FLang
