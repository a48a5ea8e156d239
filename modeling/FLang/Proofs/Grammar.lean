import FLang.Tree.Parser

/-!
# The grammar

Which significant tokens make up which tree, said without a parser. A `Phrase` relates the tokens
of a construct to its tree; there is one phrase per nonterminal, and one constructor per way to
build it.

* Expressions bind in levels, loosest first: `or`, `and`, one comparison, sums, products, one cast,
  one sign, terms. The levels of repeated operators group to the left (`LeftAssociative`).
* A statement is read in front of the token after it (`StatementPhrase`): a `return` has a value
  exactly when that token stands on its line and can start an expression. Nothing else in the
  grammar sees lines.
* `ExpressionPhrase` and `BlockPhrase` close the recursion. Their depth bounds how deep phrases are
  nested in one another; the language of the grammar is what has a derivation of some depth.
-/

namespace FLang

/-- What a significant token is. -/
abbrev Lookahead.lexeme (t : Lookahead) : Lexeme := t.token.lexeme

/-- Where a significant token stands. -/
abbrev Lookahead.position (t : Lookahead) : Position := t.token.position

namespace Grammar

/-- The token sequences of a construct, each with its tree. -/
abbrev Phrase (α : Type) : Type := List Lookahead → α → Prop

/-- Items that each follow a comma. -/
inductive AfterCommas {α : Type} (item : Phrase α) : Phrase (List α) where
  | nil : AfterCommas item [] []
  | cons {comma : Lookahead} {ts ts' : List Lookahead} {x : α} {xs : List α} :
      comma.lexeme = .punctuation .comma → item ts x → AfterCommas item ts' xs →
      AfterCommas item (comma :: ts ++ ts') (x :: xs)

/-- A name, with its position. -/
inductive Name : Phrase (Position × String) where
  | intro {t : Lookahead} {id : String} : t.lexeme = .identifier id → Name [t] (t.position, id)

/-- The name of a type. -/
inductive TypeName : Phrase BasicType where
  | intro {t : Lookahead} {type : BasicType} : t.lexeme = .typeName type → TypeName [t] type

/-! ## Expressions -/

section
variable (nested : Phrase Expression)

/-- The arguments of a call between its parentheses. -/
inductive ArgumentList : Phrase (List Expression) where
  | none : ArgumentList [] []
  | some {ts ts' : List Lookahead} {e : Expression} {es : List Expression} :
      nested ts e → AfterCommas nested ts' es → ArgumentList (ts ++ ts') (e :: es)

/-- The arguments of a call with its parentheses. -/
inductive CallArguments : Phrase (List Expression) where
  | intro {left right : Lookahead} {ts : List Lookahead} {es : List Expression} :
      left.lexeme = .punctuation .leftParenthesis → ArgumentList nested ts es →
      right.lexeme = .punctuation .rightParenthesis → CallArguments (left :: ts ++ [right]) es

/-- A constant, a variable, a call or an expression in parentheses. -/
inductive Term : Phrase Expression where
  | literal {t : Lookahead} {value : Literal} :
      t.lexeme = .constant value → Term [t] (.literal t.position value)
  | reference {t : Lookahead} {name : String} :
      t.lexeme = .identifier name → Term [t] (.variable t.position name)
  | call {t : Lookahead} {name : String} {ts : List Lookahead} {es : List Expression} :
      t.lexeme = .identifier name → CallArguments nested ts es →
      Term (t :: ts) (.call t.position name es)
  | parentheses {left right : Lookahead} {ts : List Lookahead} {e : Expression} :
      left.lexeme = .punctuation .leftParenthesis → nested ts e →
      right.lexeme = .punctuation .rightParenthesis → Term (left :: ts ++ [right]) e

/-- A term with at most one sign. -/
inductive Unary : Phrase Expression where
  | plain {ts : List Lookahead} {e : Expression} : Term nested ts e → Unary ts e
  | signed {sign : Lookahead} {ts : List Lookahead} {e : Expression} :
      (sign.lexeme = .operator (.arithmetic .subtract) ∨ sign.lexeme = .negation) →
      Term nested ts e → Unary (sign :: ts) (.negate sign.position e)

/-- A signed term with at most one cast. -/
inductive Casted : Phrase Expression where
  | plain {ts : List Lookahead} {e : Expression} : Unary nested ts e → Casted ts e
  | cast {as : Lookahead} {ts ts' : List Lookahead} {e : Expression} {type : BasicType} :
      Unary nested ts e → as.lexeme = .keyword .as → TypeName ts' type →
      Casted (ts ++ as :: ts') (.cast as.position e type)

end

/-- Operands joined by some operators, grouped to the left. -/
inductive LeftAssociative (ops : List BinaryOperator) (operand : Phrase Expression) :
    Phrase Expression where
  | single {ts : List Lookahead} {e : Expression} :
      operand ts e → LeftAssociative ops operand ts e
  | more {t : Lookahead} {op : BinaryOperator} {ts ts' : List Lookahead}
      {left right : Expression} :
      LeftAssociative ops operand ts left → t.lexeme = .operator op → op ∈ ops →
      operand ts' right →
      LeftAssociative ops operand (ts ++ t :: ts') (.binary t.position op left right)

section
variable (nested : Phrase Expression)

/-- Products and quotients. -/
def Product : Phrase Expression :=
  LeftAssociative [.arithmetic .multiply, .arithmetic .divide] (Casted nested)

/-- Sums and differences. -/
def Sum : Phrase Expression :=
  LeftAssociative [.arithmetic .sum, .arithmetic .subtract] (Product nested)

/-- At most one comparison. -/
inductive Comparison : Phrase Expression where
  | plain {ts : List Lookahead} {e : Expression} : Sum nested ts e → Comparison ts e
  | compare {t : Lookahead} {op : Relation} {ts ts' : List Lookahead} {left right : Expression} :
      Sum nested ts left → t.lexeme = .operator (.relation op) → Sum nested ts' right →
      Comparison (ts ++ t :: ts') (.binary t.position (.relation op) left right)

/-- Conjunctions. -/
def Conjunction : Phrase Expression :=
  LeftAssociative [.logical .and] (Comparison nested)

/-- Disjunctions, the loosest level. -/
def Disjunction : Phrase Expression :=
  LeftAssociative [.logical .or] (Conjunction nested)

end

/-- Expressions in which expressions are nested less deep than a depth. -/
def ExpressionPhrase : Nat → Phrase Expression
  | 0 => fun _ _ => False
  | depth + 1 => Disjunction (ExpressionPhrase depth)

/-- Whether some expression starts with a token. -/
def StartsExpression (t : Lookahead) : Prop :=
  ∃ depth ts e, ExpressionPhrase depth (t :: ts) e

/-! ## Statements -/

section
variable (expression : Phrase Expression)

/-- The declaration of a variable. -/
inductive DeclarationPhrase : Phrase Declaration where
  | intro {declare : Lookahead} {ts ts' ts'' : List Lookahead} {type : BasicType}
      {position : Position} {id : String} {e : Expression} :
      TypeName ts type → Name ts' (position, id) → declare.lexeme = .punctuation .declare →
      expression ts'' e → DeclarationPhrase (ts ++ ts' ++ declare :: ts'') ⟨position, id, type, e⟩

variable (block : Phrase Block)

/-- What a case does: an expression or a block. -/
inductive OutputPhrase : Phrase CaseOutput where
  | expression {ts : List Lookahead} {e : Expression} :
      expression ts e → OutputPhrase ts (.expression e)
  | block {ts : List Lookahead} {b : Block} : block ts b → OutputPhrase ts (.block b)

/-- The test of a case: a relation and an expression, or an expression alone. -/
inductive CaseTest : Phrase (Option Relation × Expression) where
  | compared {t : Lookahead} {op : Relation} {ts : List Lookahead} {e : Expression} :
      t.lexeme = .operator (.relation op) → expression ts e → CaseTest (t :: ts) (some op, e)
  | plain {ts : List Lookahead} {e : Expression} : expression ts e → CaseTest ts (none, e)

/-- A case of a choice. -/
inductive CasePhrase : Phrase Case where
  | fallback {default arrow : Lookahead} {ts : List Lookahead} {output : CaseOutput} :
      default.lexeme = .keyword .default → arrow.lexeme = .punctuation .arrow →
      OutputPhrase expression block ts output →
      CasePhrase (default :: arrow :: ts) (.fallback default.position output)
  | test {t arrow : Lookahead} {ts ts' : List Lookahead} {relation : Option Relation}
      {e : Expression} {output : CaseOutput} :
      CaseTest expression (t :: ts) (relation, e) → arrow.lexeme = .punctuation .arrow →
      OutputPhrase expression block ts' output →
      CasePhrase (t :: ts ++ arrow :: ts') (.test t.position relation e output)

/-- The cases of a choice in their braces: at least one. -/
inductive CaseList : Phrase (List Case) where
  | intro {left right : Lookahead} {ts ts' : List Lookahead} {c : Case} {cs : List Case} :
      left.lexeme = .punctuation .leftBrace → CasePhrase expression block ts c →
      AfterCommas (CasePhrase expression block) ts' cs →
      right.lexeme = .punctuation .rightBrace → CaseList (left :: ts ++ ts' ++ [right]) (c :: cs)

/-- What stands before the cases of a choice: declarations, a subject or nothing. -/
inductive ChoiceHead : Phrase (List Declaration × Option Expression) where
  | guards {ts ts' : List Lookahead} {d : Declaration} {ds : List Declaration} :
      DeclarationPhrase expression ts d → AfterCommas (DeclarationPhrase expression) ts' ds →
      ChoiceHead (ts ++ ts') (d :: ds, none)
  | subject {ts : List Lookahead} {e : Expression} :
      expression ts e → ChoiceHead ts ([], some e)
  | bare : ChoiceHead [] ([], none)

/-- A statement, in front of the token `next`. -/
inductive StatementPhrase (next : Lookahead) : Phrase Statement where
  | declaration {ts : List Lookahead} {d : Declaration} :
      DeclarationPhrase expression ts d → StatementPhrase next ts (.declaration d)
  | assignment {name assign : Lookahead} {id : String} {ts : List Lookahead} {e : Expression} :
      name.lexeme = .identifier id → assign.lexeme = .punctuation .assign → expression ts e →
      StatementPhrase next (name :: assign :: ts) (.assignment name.position id e)
  | call {name : Lookahead} {id : String} {ts : List Lookahead} {es : List Expression} :
      name.lexeme = .identifier id → CallArguments expression ts es →
      StatementPhrase next (name :: ts) (.call name.position id es)
  | conditional {t : Lookahead} {ts ts' : List Lookahead} {e : Expression} {b : Block} :
      t.lexeme = .keyword .if → expression ts e → block ts' b →
      StatementPhrase next (t :: ts ++ ts') (.conditional t.position e b none)
  | alternative {t otherwise : Lookahead} {ts ts' ts'' : List Lookahead} {e : Expression}
      {b b' : Block} :
      t.lexeme = .keyword .if → expression ts e → block ts' b →
      otherwise.lexeme = .keyword .else → block ts'' b' →
      StatementPhrase next (t :: ts ++ ts' ++ otherwise :: ts'')
        (.conditional t.position e b (some b'))
  | loop {t : Lookahead} {ts ts' : List Lookahead} {e : Expression} {b : Block} :
      t.lexeme = .keyword .while → expression ts e → block ts' b →
      StatementPhrase next (t :: ts ++ ts') (.loop t.position e b)
  | choice {t : Lookahead} {ts ts' : List Lookahead} {guards : List Declaration}
      {subject : Option Expression} {cs : List Case} :
      t.lexeme = .keyword .switch → ChoiceHead expression ts (guards, subject) →
      CaseList expression block ts' cs →
      StatementPhrase next (t :: ts ++ ts') (.choice t.position guards subject cs)
  | value {t first : Lookahead} {ts : List Lookahead} {e : Expression} :
      t.lexeme = .keyword .return → first.newlineBefore = false → expression (first :: ts) e →
      StatementPhrase next (t :: first :: ts) (.giveBack t.position (some e))
  | noValue {t : Lookahead} :
      t.lexeme = .keyword .return → (next.newlineBefore = true ∨ ¬ StartsExpression next) →
      StatementPhrase next [t] (.giveBack t.position none)

/-- Statements in front of the token `last`. -/
inductive StatementList (last : Lookahead) : Phrase (List Statement) where
  | nil : StatementList last [] []
  | cons {ts ts' : List Lookahead} {s : Statement} {ss : List Statement} :
      StatementPhrase expression block (ts'.headD last) ts s → StatementList last ts' ss →
      StatementList last (ts ++ ts') (s :: ss)

/-- Statements in braces. -/
inductive Braced : Phrase Block where
  | intro {left right : Lookahead} {ts : List Lookahead} {ss : List Statement} :
      left.lexeme = .punctuation .leftBrace → StatementList expression block right ts ss →
      right.lexeme = .punctuation .rightBrace →
      Braced (left :: ts ++ [right]) (.mk left.position ss)

end

/-- Blocks in which expressions and blocks are nested less deep than a depth. -/
def BlockPhrase : Nat → Phrase Block
  | 0 => fun _ _ => False
  | depth + 1 => Braced (ExpressionPhrase depth) (BlockPhrase depth)

/-! ## Functions and programs -/

/-- Names that share the type after them. -/
inductive ParameterGroup : Phrase (List Parameter) where
  | intro {ts ts' ts'' : List Lookahead} {type : BasicType} {name : Position × String}
      {names : List (Position × String)} :
      Name ts name → AfterCommas Name ts' names → TypeName ts'' type →
      ParameterGroup (ts ++ ts' ++ ts'')
        ((name :: names).map fun (position, id) => ⟨position, id, type⟩)

/-- The parameters of a function between its parentheses. -/
inductive ParameterList : Phrase (List Parameter) where
  | none : ParameterList [] []
  | some {ts ts' : List Lookahead} {group : List Parameter} {groups : List (List Parameter)} :
      ParameterGroup ts group → AfterCommas ParameterGroup ts' groups →
      ParameterList (ts ++ ts') (group ++ groups.flatten)

/-- The type that a function returns; none for a function that returns nothing. -/
inductive ReturnType : Phrase ValueType where
  | none : ReturnType [] .void
  | some {ts : List Lookahead} {type : BasicType} :
      TypeName ts type → ReturnType ts (.basic type)

section
variable (block : Phrase Block)

/-- The definition of a function. -/
inductive FunctionPhrase : Phrase Function where
  | intro {name left right : Lookahead} {id : String} {ts ts' ts'' : List Lookahead}
      {ps : List Parameter} {type : ValueType} {body : Block} :
      name.lexeme = .identifier id → left.lexeme = .punctuation .leftParenthesis →
      ParameterList ts ps → right.lexeme = .punctuation .rightParenthesis →
      ReturnType ts' type → block ts'' body →
      FunctionPhrase (name :: left :: ts ++ right :: ts' ++ ts'')
        ⟨name.position, id, ps, type, body⟩

/-- Definitions of functions. -/
inductive FunctionList : Phrase (List Function) where
  | nil : FunctionList [] []
  | cons {ts ts' : List Lookahead} {f : Function} {fs : List Function} :
      FunctionPhrase block ts f → FunctionList ts' fs → FunctionList (ts ++ ts') (f :: fs)

end

/-! ### Members of lists -/

/-- Every item of a list is a phrase of its own, -/
theorem AfterCommas.mem {α : Type} {item : Phrase α} {ts : List Lookahead} {xs : List α}
    (h : AfterCommas item ts xs) : ∀ x ∈ xs, ∃ ts', item ts' x := by
  induction h with
  | nil => simp
  | cons _ hx _ ih => simpa using ⟨⟨_, hx⟩, ih⟩

/-- every statement with what follows it, -/
theorem StatementList.mem {E : Phrase Expression} {B : Phrase Block} {last : Lookahead}
    {ts : List Lookahead} {ss : List Statement} (h : StatementList E B last ts ss) :
    ∀ s ∈ ss, ∃ next ts', StatementPhrase E B next ts' s := by
  induction h with
  | nil => simp
  | cons hs _ ih => simpa using ⟨⟨_, _, hs⟩, ih⟩

/-- and every function. -/
theorem FunctionList.mem {B : Phrase Block} {ts : List Lookahead} {fs : List Function}
    (h : FunctionList B ts fs) : ∀ f ∈ fs, ∃ ts', FunctionPhrase B ts' f := by
  induction h with
  | nil => simp
  | cons hf _ ih => simpa using ⟨⟨_, hf⟩, ih⟩

/-- Programs in whose functions blocks and expressions are nested up to a depth. -/
def ProgramPhrase (depth : Nat) : Phrase Program := fun ts program =>
  FunctionList (BlockPhrase depth) ts program.functions

/-- The program that some tokens denote, whatever the depth of its nesting. -/
def Derives (ts : List Lookahead) (program : Program) : Prop :=
  ∃ depth, ProgramPhrase depth ts program

end Grammar

end FLang
