import FLang.Tree.Printer

/-!
# Canonical words

What of a tree survives printing and what its text is made of, said without characters.

* `Program.erase` — a tree without its positions: two trees of one erasure differ in nothing else;
* `Expression.words`, `Statement.lines`, `Function.lines` — the lexemes of the canonical text, line
  by line: the text of a line is its lexemes with blanks between them;
* `Program.nesting` — how deep the canonical text nests expressions and blocks in one another. The
  parentheses around every operation and every cast count, so that a tree can be nested deeper in
  its canonical text than where it was read.
-/

namespace FLang

/-! ## Trees without positions -/

mutual

/-- An expression without positions. -/
def Expression.erase : Expression → Expression
  | .literal _ value => .literal .start value
  | .variable _ name => .variable .start name
  | .negate _ operand => .negate .start operand.erase
  | .cast _ operand target => .cast .start operand.erase target
  | .binary _ op left right => .binary .start op left.erase right.erase
  | .call _ name arguments => .call .start name (Expression.eraseAll arguments)

/-- Some expressions without positions. -/
def Expression.eraseAll : List Expression → List Expression
  | [] => []
  | first :: rest => first.erase :: Expression.eraseAll rest

end

/-- A declaration without positions. -/
def Declaration.erase (d : Declaration) : Declaration :=
  ⟨.start, d.name, d.type, d.initializer.erase⟩

mutual

/-- A statement without positions. -/
def Statement.erase : Statement → Statement
  | .declaration d => .declaration d.erase
  | .assignment _ name value => .assignment .start name value.erase
  | .conditional _ condition thenBlock none =>
    .conditional .start condition.erase thenBlock.erase none
  | .conditional _ condition thenBlock (some elseBlock) =>
    .conditional .start condition.erase thenBlock.erase (some elseBlock.erase)
  | .loop _ condition body => .loop .start condition.erase body.erase
  | .choice _ guards subject cases =>
    .choice .start (guards.map Declaration.erase) (subject.map Expression.erase)
      (Case.eraseAll cases)
  | .giveBack _ value => .giveBack .start (value.map Expression.erase)
  | .call _ name arguments => .call .start name (Expression.eraseAll arguments)

/-- Some statements without positions. -/
def Statement.eraseAll : List Statement → List Statement
  | [] => []
  | first :: rest => first.erase :: Statement.eraseAll rest

/-- A block without positions. -/
def Block.erase : Block → Block
  | .mk _ statements => .mk .start (Statement.eraseAll statements)

/-- A case without positions. -/
def Case.erase : Case → Case
  | .test _ relation value output => .test .start relation value.erase output.erase
  | .fallback _ output => .fallback .start output.erase

/-- Some cases without positions. -/
def Case.eraseAll : List Case → List Case
  | [] => []
  | first :: rest => first.erase :: Case.eraseAll rest

/-- The output of a case without positions. -/
def CaseOutput.erase : CaseOutput → CaseOutput
  | .expression value => .expression value.erase
  | .block block => .block block.erase

end

/-- A parameter without positions. -/
def Parameter.erase (p : Parameter) : Parameter :=
  ⟨.start, p.name, p.type⟩

/-- A function without positions. -/
def Function.erase (f : Function) : Function :=
  ⟨.start, f.name, f.parameters.map Parameter.erase, f.returnType, f.body.erase⟩

/-- A program without positions. -/
def Program.erase (p : Program) : Program :=
  ⟨p.functions.map Function.erase⟩

/-! ## Words of expressions -/

/-- Lexemes in parentheses. -/
def parenthesized (words : List Lexeme) : List Lexeme :=
  .punctuation .leftParenthesis :: words ++ [.punctuation .rightParenthesis]

/-- Items with commas between them. -/
def commaWords (items : List (List Lexeme)) : List Lexeme :=
  List.intercalate [.punctuation .comma] items

/-- A call, from the words of its arguments. -/
def callWords (name : String) (arguments : List (List Lexeme)) : List Lexeme :=
  .identifier name :: parenthesized (commaWords arguments)

mutual

/-- The lexemes of the canonical text of an expression. -/
def Expression.words : Expression → List Lexeme
  | .literal _ value => [.constant value]
  | .variable _ name => [.identifier name]
  | .negate _ operand =>
    .operator (.arithmetic .subtract) ::
      if Printer.isNegation operand then parenthesized operand.words else operand.words
  | .cast _ operand target => parenthesized (operand.words ++ [.keyword .as, .typeName target])
  | .binary _ op left right => parenthesized (left.words ++ .operator op :: right.words)
  | .call _ name arguments => callWords name (Expression.wordsOf arguments)

/-- The lexemes of some expressions. -/
def Expression.wordsOf : List Expression → List (List Lexeme)
  | [] => []
  | first :: rest => first.words :: Expression.wordsOf rest

end

/-- The lexemes of a declaration. -/
def Declaration.words (d : Declaration) : List Lexeme :=
  .typeName d.type :: .identifier d.name :: .punctuation .declare :: d.initializer.words

/-! ## Lines of statements -/

/-- Lines in braces, after a header on the line of the opening one. -/
def bracedLines (header : List Lexeme) (lines : List (List Lexeme)) : List (List Lexeme) :=
  (header ++ [.punctuation .leftBrace]) :: lines ++ [[.punctuation .rightBrace]]

/-- Puts lexemes at the end of the last line. -/
def extendLastLine (words : List Lexeme) : List (List Lexeme) → List (List Lexeme)
  | [] => []
  | [last] => [last ++ words]
  | line :: rest => line :: extendLastLine words rest

/-- What stands before the cases of a choice. -/
def choiceWords (guards : List Declaration) (subject : Option Expression) : List Lexeme :=
  if guards.isEmpty then
    match subject with
    | some value => value.words
    | none => []
  else commaWords (guards.map Declaration.words)

/-- The test of a case. -/
def testWords (relation : Option Relation) (value : Expression) : List Lexeme :=
  match relation with
  | some op => .operator (.relation op) :: value.words
  | none => value.words

mutual

/-- The lines of a statement. -/
def Statement.lines : Statement → List (List Lexeme)
  | .declaration d => [d.words]
  | .assignment _ name value => [.identifier name :: .punctuation .assign :: value.words]
  | .conditional _ condition thenBlock none =>
    bracedLines (.keyword .if :: condition.words) thenBlock.lines
  | .conditional _ condition thenBlock (some elseBlock) =>
    (.keyword .if :: condition.words ++ [.punctuation .leftBrace]) :: thenBlock.lines ++
      bracedLines [.punctuation .rightBrace, .keyword .else] elseBlock.lines
  | .loop _ condition body => bracedLines (.keyword .while :: condition.words) body.lines
  | .choice _ guards subject cases =>
    bracedLines (.keyword .switch :: choiceWords guards subject) (Case.linesOf cases)
  | .giveBack _ none => [[.keyword .return]]
  | .giveBack _ (some value) => [.keyword .return :: value.words]
  | .call _ name arguments => [callWords name (Expression.wordsOf arguments)]

/-- The lines inside the braces of a block. -/
def Block.lines : Block → List (List Lexeme)
  | .mk _ statements => Statement.linesOf statements

/-- The lines of some statements. -/
def Statement.linesOf : List Statement → List (List Lexeme)
  | [] => []
  | first :: rest => first.lines ++ Statement.linesOf rest

/-- The lines of some cases, with commas between them. -/
def Case.linesOf : List Case → List (List Lexeme)
  | [] => []
  | [last] => last.lines
  | first :: second :: rest =>
    extendLastLine [.punctuation .comma] first.lines ++ Case.linesOf (second :: rest)

/-- The lines of a case. -/
def Case.lines : Case → List (List Lexeme)
  | .test _ relation value output =>
    output.lines (testWords relation value ++ [.punctuation .arrow])
  | .fallback _ output => output.lines [.keyword .default, .punctuation .arrow]

/-- The lines of what a case does, after its label. -/
def CaseOutput.lines (label : List Lexeme) : CaseOutput → List (List Lexeme)
  | .expression value => [label ++ value.words]
  | .block block => bracedLines label block.lines

end

/-- The lexemes of a parameter. -/
def Parameter.words (p : Parameter) : List Lexeme :=
  [.identifier p.name, .typeName p.type]

/-- The lexemes of what a function returns. -/
def ValueType.words : ValueType → List Lexeme
  | .void => []
  | .basic type => [.typeName type]

/-- The lines of a function. -/
def Function.lines (f : Function) : List (List Lexeme) :=
  bracedLines (callWords f.name (f.parameters.map Parameter.words) ++ f.returnType.words)
    f.body.lines

/-- The lexemes of a function's text, ends of lines included. -/
def Function.lexemes (f : Function) : List Lexeme :=
  List.intercalate [.endOfLine] f.lines

/-- The lexemes of a program's text: its functions with an empty line between them. -/
def Program.lexemes (p : Program) : List Lexeme :=
  List.intercalate [.endOfLine, .endOfLine] (p.functions.map Function.lexemes) ++ [.endOfLine]

/-- The value of a constant. -/
def Lexeme.literal? : Lexeme → Option Literal
  | .constant value => some value
  | _ => none

/-- The constants of a program, in the order of its text. -/
def Program.constants (p : Program) : List Literal :=
  p.functions.flatMap fun f => f.lines.flatten.filterMap Lexeme.literal?

theorem Program.mem_constants {p : Program} {f : Function} {line : List Lexeme} {value : Literal}
    (hf : f ∈ p.functions) (hline : line ∈ f.lines) (hl : .constant value ∈ line) :
    value ∈ p.constants := by
  have hword : .constant value ∈ f.lines.flatten := List.mem_flatten_of_mem hline hl
  exact List.mem_flatMap.2 ⟨f, hf, List.mem_filterMap.2 ⟨_, hword, rfl⟩⟩

/-! ## Nesting -/

mutual

/-- How deep expressions are nested inside the canonical text of an expression. -/
def Expression.nesting : Expression → Nat
  | .literal _ _ | .variable _ _ => 0
  | .negate _ operand =>
    if Printer.isNegation operand then operand.nesting + 1 else operand.nesting
  | .cast _ operand _ => operand.nesting + 1
  | .binary _ _ left right => max left.nesting right.nesting + 1
  | .call _ _ arguments => Expression.nestingOf arguments

/-- How deep some expressions are nested, themselves included. -/
def Expression.nestingOf : List Expression → Nat
  | [] => 0
  | first :: rest => max (first.nesting + 1) (Expression.nestingOf rest)

end

/-- How deep the expression of a declaration is nested, itself included. -/
def Declaration.nesting (d : Declaration) : Nat :=
  d.initializer.nesting + 1

/-- The largest of some numbers. -/
def deepest (depths : List Nat) : Nat :=
  depths.foldr max 0

mutual

/-- How deep expressions and blocks are nested inside a statement. -/
def Statement.nesting : Statement → Nat
  | .declaration d => d.nesting
  | .assignment _ _ value => value.nesting + 1
  | .conditional _ condition thenBlock none => max (condition.nesting + 1) thenBlock.nesting
  | .conditional _ condition thenBlock (some elseBlock) =>
    max (condition.nesting + 1) (max thenBlock.nesting elseBlock.nesting)
  | .loop _ condition body => max (condition.nesting + 1) body.nesting
  | .choice _ guards subject cases =>
    max (deepest (guards.map Declaration.nesting))
      (max (Expression.nestingOf subject.toList) (Case.nestingOf cases))
  | .giveBack _ value => Expression.nestingOf value.toList
  | .call _ _ arguments => Expression.nestingOf arguments

/-- How deep a block is nested, itself included. -/
def Block.nesting : Block → Nat
  | .mk _ statements => Statement.nestingOf statements + 1

/-- How deep expressions and blocks are nested inside some statements. -/
def Statement.nestingOf : List Statement → Nat
  | [] => 0
  | first :: rest => max first.nesting (Statement.nestingOf rest)

/-- How deep expressions and blocks are nested inside some cases. -/
def Case.nestingOf : List Case → Nat
  | [] => 0
  | first :: rest => max first.nesting (Case.nestingOf rest)

/-- How deep expressions and blocks are nested inside a case. -/
def Case.nesting : Case → Nat
  | .test _ _ value output => max (value.nesting + 1) output.nesting
  | .fallback _ output => output.nesting

/-- How deep expressions and blocks are nested inside the output of a case. -/
def CaseOutput.nesting : CaseOutput → Nat
  | .expression value => value.nesting + 1
  | .block block => block.nesting

end

/-- How deep expressions and blocks are nested inside the functions of a program. -/
def Program.nesting (p : Program) : Nat :=
  deepest (p.functions.map fun f => f.body.nesting)

end FLang
