import FLang.Decimal.Layout
import FLang.Fault

/-!
# Tokens

A token is a lexeme with the position of its first character. Newlines, comments and the end of the
input are tokens as well; a reader of tokens decides what to do with them.
-/

namespace FLang

/-- A constant in a program. Numbers are never negative: a sign is an operator. -/
inductive Literal where
  | int (value : Nat)
  | float (value : Float)
  | bool (value : Bool)
  | string (value : String)
deriving DecidableEq

/-- Words that are not names, the types and the word operators apart. -/
inductive Keyword where
  | if
  | else
  | while
  | switch
  | default
  | return
  | as
deriving DecidableEq, Repr

/-- Marks that structure a program. -/
inductive Punctuation where
  /-- The mark of a declaration. -/
  | declare
  /-- The mark of an assignment. -/
  | assign
  /-- The mark between a switch case and its output. -/
  | arrow
  | leftBrace
  | rightBrace
  | leftParenthesis
  | rightParenthesis
  | comma
deriving DecidableEq, Repr

/-- What a token is. -/
inductive Lexeme where
  | identifier (name : String)
  | constant (value : Literal)
  | typeName (type : BasicType)
  | operator (op : BinaryOperator)
  /-- The sign that negates a truth value. -/
  | negation
  | keyword (word : Keyword)
  | punctuation (mark : Punctuation)
  /-- A comment, with its text after the hash sign. -/
  | comment (text : String)
  | endOfLine
  | endOfInput
deriving DecidableEq

/-- A lexeme in its place. -/
structure Token where
  /-- What it is. -/
  lexeme : Lexeme
  /-- Where its first character is. -/
  position : Position
deriving DecidableEq

/-- A keyword as a program writes it. -/
def Keyword.text : Keyword → String
  | .if => "if"
  | .else => "else"
  | .while => "while"
  | .switch => "switch"
  | .default => "default"
  | .return => "return"
  | .as => "as"

/-- A mark as a program writes it. -/
def Punctuation.text : Punctuation → String
  | .declare => ":="
  | .assign => "="
  | .arrow => "=>"
  | .leftBrace => "\x7b"
  | .rightBrace => "\x7d"
  | .leftParenthesis => "("
  | .rightParenthesis => ")"
  | .comma => ","

namespace Lexeme

/-- The name of the kind of a lexeme; a fixed spelling names itself. -/
def kind : Lexeme → String
  | identifier _ => "identifier"
  | constant (.int _) => "int constant"
  | constant (.float _) => "float constant"
  | constant (.string _) => "string constant"
  | constant (.bool _) => "bool constant"
  | typeName type => type.name
  | operator op => op.symbol
  | negation => "!"
  | keyword word => word.text
  | punctuation mark => mark.text
  | comment _ => "comment"
  | endOfLine => "end of line"
  | endOfInput => "end of input"

/-- A lexeme as error messages show it. An integer of too many digits cannot be shown. -/
def describe (lexeme : Lexeme) : Except Fault String :=
  match lexeme with
  | identifier name => .ok (lexeme.kind ++ " '" ++ name ++ "'")
  | constant (.int value) =>
    match Decimal.intText? value with
    | some digits => .ok (lexeme.kind ++ " '" ++ digits ++ "'")
    | none => .error (.tooManyDigits none)
  | constant (.float value) =>
    .ok (lexeme.kind ++ " '" ++ Decimal.Layout.value.write value ++ "'")
  | constant (.bool value) =>
    .ok (lexeme.kind ++ " '" ++ (if value then "True" else "False") ++ "'")
  | constant (.string value) => .ok (lexeme.kind ++ " \"" ++ value ++ "\"")
  | comment _ | endOfLine | endOfInput => .ok lexeme.kind
  | _ => .ok ("'" ++ lexeme.kind ++ "'")

/-- Whether a lexeme only lays out a program: a newline or a comment. -/
def isTrivia : Lexeme → Bool
  | comment _ | endOfLine => true
  | _ => false

/-- Every word that is not a name, in the order in which they are listed to a user, and its
lexeme. The truth values come last. -/
def words : List (String × Lexeme) :=
  [("int", typeName .int), ("float", typeName .float), ("bool", typeName .bool),
   ("string", typeName .string), ("if", keyword .if), ("else", keyword .else),
   ("while", keyword .while), ("switch", keyword .switch), ("default", keyword .default),
   ("return", keyword .return), ("and", operator (.logical .and)), ("or", operator (.logical .or)),
   ("as", keyword .as), ("true", constant (.bool true)), ("false", constant (.bool false))]

/-- The lexeme of a word: itself if it is reserved, and a name otherwise. -/
def ofWord (word : String) : Lexeme :=
  (words.lookup word).getD (identifier word)

/-- The lexeme of an operator or a mark of one character. -/
def ofChar? (c : Char) : Option Lexeme :=
  match c with
  | '+' => some (operator (.arithmetic .sum))
  | '-' => some (operator (.arithmetic .subtract))
  | '*' => some (operator (.arithmetic .multiply))
  | '/' => some (operator (.arithmetic .divide))
  | '<' => some (operator (.relation .less))
  | '>' => some (operator (.relation .greater))
  | '=' => some (punctuation .assign)
  | '!' => some negation
  | '(' => some (punctuation .leftParenthesis)
  | ')' => some (punctuation .rightParenthesis)
  | '\x7b' => some (punctuation .leftBrace)
  | '\x7d' => some (punctuation .rightBrace)
  | ',' => some (punctuation .comma)
  | _ => none

/-- The lexeme of an operator or a mark of two characters. -/
def ofPair? (first second : Char) : Option Lexeme :=
  match first, second with
  | ':', '=' => some (punctuation .declare)
  | '=', '>' => some (punctuation .arrow)
  | '=', '=' => some (operator (.relation .equal))
  | '!', '=' => some (operator (.relation .notEqual))
  | '<', '=' => some (operator (.relation .lessOrEqual))
  | '>', '=' => some (operator (.relation .greaterOrEqual))
  | _, _ => none

end Lexeme

end FLang
