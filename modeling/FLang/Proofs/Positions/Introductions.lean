import FLang.Proofs.RoundTrip
import FLang.Proofs.Lexing.LongestMatch

/-!
# Positions point at texts

Every part of a parsed program carries the position of the lexeme that introduces it, and in the
source text that lexeme stands there.

* `Opening` — what introduces a part of a program: a name, an operator, a keyword, a sign, a literal
  or a brace. `Opening.Begins` says that a text begins with it;
* `Program.marks` — every part of a program, as its position and what introduces it;
* `Introduces` — each part of a construct is introduced by a token of it. One lemma per nonterminal
  of the grammar;
* `Splits.text_at` — where a token is, the text of its lexeme is.
-/

namespace FLang

open Grammar FLang.Parser

/-! ## What introduces a part -/

/-- What introduces a part of a program in its text. -/
inductive Opening where
  /-- A name, of a function, a parameter or a variable. -/
  | name (id : String)
  | operator (op : BinaryOperator)
  | keyword (word : Keyword)
  /-- The sign of a negation: it negates a number or a truth value. -/
  | sign
  | literal (value : Literal)
  /-- The brace that opens a block. -/
  | brace
  /-- Whatever an expression starts with. -/
  | start

/-- The lexemes that introduce a part. -/
def Opening.Admits : Opening → Lexeme → Prop
  | .name id, l => l = .identifier id
  | .operator op, l => l = .operator op
  | .keyword word, l => l = .keyword word
  | .sign, l => l = .operator (.arithmetic .subtract) ∨ l = .negation
  | .literal value, l => l = .constant value
  | .brace, l => l = .punctuation .leftBrace
  | .start, l => startsExpression l = true

/-- A text begins with what introduces a part. A literal can be written in several ways; the text
begins with one of them. -/
def Opening.Begins (limits : Limits) : Opening → List Char → Prop
  | .name id, text => id.toList <+: text
  | .operator op, text => op.symbol.toList <+: text
  | .keyword word, text => word.text.toList <+: text
  | .sign, text => ['-'] <+: text ∨ ['!'] <+: text
  | .literal value, text =>
    ∃ written continues, Lexical limits written (.constant value) continues ∧ written <+: text
  | .brace, text => ['\x7b'] <+: text
  | .start, text =>
    ∃ l written continues, startsExpression l = true ∧ Lexical limits written l continues ∧
      written <+: text

/-- A part of a program: where it is and what introduces it. -/
structure Mark where
  position : Position
  opening : Opening

mutual

/-- The parts of an expression. -/
def Expression.marks : Expression → List Mark
  | .literal position value => [⟨position, .literal value⟩]
  | .variable position name => [⟨position, .name name⟩]
  | .negate position operand => ⟨position, .sign⟩ :: operand.marks
  | .cast position operand _ => ⟨position, .keyword .as⟩ :: operand.marks
  | .binary position op left right => ⟨position, .operator op⟩ :: (left.marks ++ right.marks)
  | .call position name arguments => ⟨position, .name name⟩ :: Expression.marksAll arguments

/-- The parts of some expressions. -/
def Expression.marksAll : List Expression → List Mark
  | [] => []
  | first :: rest => first.marks ++ Expression.marksAll rest

end

/-- The parts of a declaration. -/
def Declaration.marks (d : Declaration) : List Mark :=
  ⟨d.position, .name d.name⟩ :: d.initializer.marks

mutual

/-- The parts of a statement. -/
def Statement.marks : Statement → List Mark
  | .declaration d => d.marks
  | .assignment position name value => ⟨position, .name name⟩ :: value.marks
  | .conditional position condition thenBlock none =>
    ⟨position, .keyword .if⟩ :: (condition.marks ++ thenBlock.marks)
  | .conditional position condition thenBlock (some elseBlock) =>
    ⟨position, .keyword .if⟩ :: (condition.marks ++ thenBlock.marks ++ elseBlock.marks)
  | .loop position condition body =>
    ⟨position, .keyword .while⟩ :: (condition.marks ++ body.marks)
  | .choice position guards subject cases =>
    ⟨position, .keyword .switch⟩ ::
      (guards.flatMap Declaration.marks ++ subject.toList.flatMap Expression.marks ++
        Case.marksAll cases)
  | .giveBack position value =>
    ⟨position, .keyword .return⟩ :: value.toList.flatMap Expression.marks
  | .call position name arguments => ⟨position, .name name⟩ :: Expression.marksAll arguments

/-- The parts of some statements. -/
def Statement.marksAll : List Statement → List Mark
  | [] => []
  | first :: rest => first.marks ++ Statement.marksAll rest

/-- The parts of a block. -/
def Block.marks : Block → List Mark
  | .mk position statements => ⟨position, .brace⟩ :: Statement.marksAll statements

/-- The parts of a case. A test without a relation starts with its expression. -/
def Case.marks : Case → List Mark
  | .test position none value output => ⟨position, .start⟩ :: (value.marks ++ output.marks)
  | .test position (some op) value output =>
    ⟨position, .operator (.relation op)⟩ :: (value.marks ++ output.marks)
  | .fallback position output => ⟨position, .keyword .default⟩ :: output.marks

/-- The parts of some cases. -/
def Case.marksAll : List Case → List Mark
  | [] => []
  | first :: rest => first.marks ++ Case.marksAll rest

/-- The parts of what a case does. -/
def CaseOutput.marks : CaseOutput → List Mark
  | .expression value => value.marks
  | .block block => block.marks

end

/-- A parameter, at its name. -/
def Parameter.mark (p : Parameter) : Mark :=
  ⟨p.position, .name p.name⟩

/-- The parts of a function. -/
def Function.marks (f : Function) : List Mark :=
  ⟨f.position, .name f.name⟩ :: (f.parameters.map Parameter.mark ++ f.body.marks)

/-- The parts of a program. -/
def Program.marks (program : Program) : List Mark :=
  program.functions.flatMap Function.marks

/-- The marks of expressions, one after the other. -/
@[simp] theorem Expression.marksAll_eq (es : List Expression) :
    Expression.marksAll es = es.flatMap Expression.marks := by
  induction es with
  | nil => rfl
  | cons e es ih => rw [marksAll, ih, List.flatMap_cons]

/-- The marks of cases, one after the other. -/
@[simp] theorem Case.marksAll_eq (arms : List Case) :
    Case.marksAll arms = arms.flatMap Case.marks := by
  induction arms with
  | nil => rfl
  | cons arm arms ih => rw [marksAll, ih, List.flatMap_cons]

/-! ## Parts and tokens -/

section
variable {P : Lookahead → Prop}

/-- A part is introduced by a token of a set. -/
def Introduced (P : Lookahead → Prop) (m : Mark) : Prop :=
  ∃ t, P t ∧ t.position = m.position ∧ m.opening.Admits t.lexeme

/-- The parts of a construct are introduced by tokens of a set that has all its tokens. -/
def Introduces {α : Type} (P : Lookahead → Prop) (phrase : Phrase α) (marks : α → List Mark) :
    Prop :=
  ∀ ⦃ts x⦄, phrase ts x → (∀ t ∈ ts, P t) → ∀ m ∈ marks x, Introduced P m

/-- Items after commas are introduced as the items are. -/
theorem introduces_afterCommas {α : Type} {item : Phrase α} {marks : α → List Mark}
    (h : Introduces P item marks) : Introduces P (AfterCommas item) (List.flatMap marks) := by
  intro ts xs hxs
  induction hxs with
  | nil => simp
  | cons _ hx _ ih =>
    intro hts
    simp only [List.cons_append, List.forall_mem_cons, List.forall_mem_append] at hts
    rw [List.flatMap_cons, List.forall_mem_append]
    exact ⟨h hx hts.2.1, ih hts.2.2⟩

theorem introduces_name : Introduces P Name fun name => [⟨name.1, .name name.2⟩] := by
  rintro _ _ ⟨hl⟩ hts
  simp only [List.forall_mem_singleton] at hts ⊢
  exact ⟨_, hts, rfl, hl⟩

section
variable {nested : Phrase Expression}

/-- Every expression of a rule is introduced by tokens. -/
abbrev IntroducesExpressions (P : Lookahead → Prop) (phrase : Phrase Expression) : Prop :=
  Introduces P phrase Expression.marks

/-- Arguments are introduced by their own tokens. -/
theorem introduces_callArguments (h : IntroducesExpressions P nested) :
    Introduces P (CallArguments nested) Expression.marksAll := by
  rintro _ es ⟨_, hes, _⟩ hts
  simp only [List.cons_append, List.forall_mem_cons, List.forall_mem_append] at hts
  rw [Expression.marksAll_eq]
  cases hes with
  | none => simp
  | some he hes =>
    rw [List.forall_mem_append] at hts
    rw [List.flatMap_cons, List.forall_mem_append]
    exact ⟨h he hts.2.1.1, introduces_afterCommas h hes hts.2.1.2⟩

/-- A constant, a name and a call stand at their first token; parentheses introduce nothing. -/
theorem introduces_term (h : IntroducesExpressions P nested) :
    IntroducesExpressions P (Term nested) := by
  intro ts e he hts
  cases he with
  | literal hl =>
    simp only [Expression.marks, List.forall_mem_singleton] at hts ⊢
    exact ⟨_, hts, rfl, hl⟩
  | reference hl =>
    simp only [Expression.marks, List.forall_mem_singleton] at hts ⊢
    exact ⟨_, hts, rfl, hl⟩
  | call hl hes =>
    simp only [Expression.marks, List.forall_mem_cons] at hts ⊢
    exact ⟨⟨_, hts.1, rfl, hl⟩, introduces_callArguments h hes hts.2⟩
  | parentheses _ he _ =>
    simp only [List.cons_append, List.forall_mem_cons, List.forall_mem_append] at hts
    exact h he hts.2.1

/-- A sign introduces the negative of its operand. -/
theorem introduces_unary (h : IntroducesExpressions P nested) :
    IntroducesExpressions P (Unary nested) := by
  intro ts e he hts
  cases he with
  | plain he => exact introduces_term h he hts
  | signed hsign he =>
    simp only [Expression.marks, List.forall_mem_cons] at hts ⊢
    exact ⟨⟨_, hts.1, rfl, hsign⟩, introduces_term h he hts.2⟩

/-- The keyword of a cast introduces it. -/
theorem introduces_casted (h : IntroducesExpressions P nested) :
    IntroducesExpressions P (Casted nested) := by
  intro ts e he hts
  cases he with
  | plain he => exact introduces_unary h he hts
  | cast he has _ =>
    simp only [Expression.marks, List.forall_mem_cons, List.forall_mem_append] at hts ⊢
    exact ⟨⟨_, hts.2.1, rfl, has⟩, introduces_unary h he hts.1⟩

/-- Two operands around their operator. -/
theorem introduced_binary {t : Lookahead} {op : BinaryOperator} {ts ts' : List Lookahead}
    {left right : Expression} (hl : t.lexeme = .operator op)
    (hleft : (∀ u ∈ ts, P u) → ∀ m ∈ left.marks, Introduced P m)
    (hright : (∀ u ∈ ts', P u) → ∀ m ∈ right.marks, Introduced P m)
    (hts : ∀ u ∈ ts ++ t :: ts', P u) :
    ∀ m ∈ (Expression.binary t.position op left right).marks, Introduced P m := by
  simp only [Expression.marks, List.forall_mem_cons, List.forall_mem_append] at hts ⊢
  exact ⟨⟨t, hts.2.1, rfl, hl⟩, hleft hts.1, hright hts.2.2⟩

/-- Each operator of a chain introduces what it joins. -/
theorem introduces_leftAssociative {ops : List BinaryOperator}
    (h : IntroducesExpressions P nested) :
    IntroducesExpressions P (LeftAssociative ops nested) := by
  intro ts e he
  induction he with
  | single he => exact h he
  | more _ hl _ hright ih => exact introduced_binary hl ih (h hright)

/-- A relation is introduced by its operator. -/
theorem introduces_comparison (h : IntroducesExpressions P nested) :
    IntroducesExpressions P (Comparison nested) := by
  have hsum : IntroducesExpressions P (Grammar.Sum nested) :=
    introduces_leftAssociative (introduces_leftAssociative (introduces_casted h))
  intro ts e he
  cases he with
  | plain he => exact hsum he
  | compare hleft hl hright => exact introduced_binary hl (hsum hleft) (hsum hright)

/-- **Every part of an expression is introduced by one of its tokens**, at every depth. -/
theorem introduces_expression (depth : Nat) :
    IntroducesExpressions P (ExpressionPhrase depth) := by
  induction depth with
  | zero => exact fun _ _ h => h.elim
  | succ depth ih =>
    exact introduces_leftAssociative (introduces_leftAssociative (introduces_comparison ih))

end

section
variable {E : Phrase Expression} {B : Phrase Block}

/-- A declaration is introduced by its name. -/
theorem introduces_declaration (h : IntroducesExpressions P E) :
    Introduces P (DeclarationPhrase E) Declaration.marks := by
  rintro _ _ ⟨_, hname, _, he⟩ hts
  simp only [List.forall_mem_cons, List.forall_mem_append] at hts
  have hfirst := introduces_name hname hts.1.2
  rw [List.forall_mem_singleton] at hfirst
  rw [Declaration.marks, List.forall_mem_cons]
  exact ⟨hfirst, h he hts.2.2⟩

/-- What a case does is introduced as a block or as an expression. -/
theorem introduces_output (h : IntroducesExpressions P E) (hB : Introduces P B Block.marks) :
    Introduces P (OutputPhrase E B) CaseOutput.marks := by
  intro ts output houtput
  cases houtput with
  | expression he => exact h he
  | block hb => exact hB hb

/-- A case starts where its test does. -/
theorem introduces_case (h : IntroducesExpressions P E) (hfirst : FirstIn startsExpression E)
    (hB : Introduces P B Block.marks) : Introduces P (CasePhrase E B) Case.marks := by
  intro ts c hc hts
  cases hc with
  | fallback hl _ houtput =>
    simp only [Case.marks, List.forall_mem_cons] at hts ⊢
    exact ⟨⟨_, hts.1, rfl, hl⟩, introduces_output h hB houtput hts.2.2⟩
  | test htest _ houtput =>
    simp only [List.cons_append, List.forall_mem_cons, List.forall_mem_append] at hts
    have hmarks := introduces_output h hB houtput hts.2.2.2
    cases htest with
    | compared hl he =>
      simp only [Case.marks, List.forall_mem_cons, List.forall_mem_append]
      exact ⟨⟨_, hts.1, rfl, hl⟩, h he hts.2.1, hmarks⟩
    | plain he =>
      obtain ⟨t, ts', heq, hstart⟩ := hfirst _ _ he
      obtain ⟨rfl, -⟩ := List.cons.inj heq
      simp only [Case.marks, List.forall_mem_cons, List.forall_mem_append]
      exact ⟨⟨_, hts.1, rfl, hstart⟩, h he (List.forall_mem_cons.2 ⟨hts.1, hts.2.1⟩), hmarks⟩

theorem introduces_caseList (h : IntroducesExpressions P E) (hfirst : FirstIn startsExpression E)
    (hB : Introduces P B Block.marks) : Introduces P (CaseList E B) Case.marksAll := by
  have hcase := introduces_case h hfirst hB
  rintro _ _ ⟨_, hc, hcs, _⟩ hts
  simp only [List.cons_append, List.forall_mem_cons, List.forall_mem_append] at hts
  rw [Case.marksAll_eq, List.flatMap_cons, List.forall_mem_append]
  exact ⟨hcase hc hts.2.1.1, introduces_afterCommas hcase hcs hts.2.1.2⟩

/-- Guards and subject of a choice are introduced by their own tokens. -/
theorem introduces_choiceHead (h : IntroducesExpressions P E) :
    Introduces P (ChoiceHead E) fun head =>
      head.1.flatMap Declaration.marks ++ head.2.toList.flatMap Expression.marks := by
  intro ts head hhead hts
  cases hhead with
  | guards hd hds =>
    rw [List.forall_mem_append] at hts
    have hrest := introduces_afterCommas (introduces_declaration h) hds hts.2
    simpa [or_imp, forall_and] using ⟨introduces_declaration h hd hts.1, by simpa using hrest⟩
  | subject he => simpa using h he hts
  | bare => simp

/-- Each kind of statement is introduced by its keyword or by its name. -/
theorem introduces_statement (h : IntroducesExpressions P E) (hfirst : FirstIn startsExpression E)
    (hB : Introduces P B Block.marks) (next : Lookahead) :
    Introduces P (StatementPhrase E B next) Statement.marks := by
  intro ts s hs hts
  cases hs with
  | declaration hd => exact introduces_declaration h hd hts
  | assignment hname _ he =>
    simp only [Statement.marks, List.forall_mem_cons] at hts ⊢
    exact ⟨⟨_, hts.1, rfl, hname⟩, h he hts.2.2⟩
  | call hname hes =>
    simp only [Statement.marks, List.forall_mem_cons] at hts ⊢
    exact ⟨⟨_, hts.1, rfl, hname⟩, introduces_callArguments h hes hts.2⟩
  | conditional hl he hb =>
    simp only [Statement.marks, List.cons_append, List.forall_mem_cons,
      List.forall_mem_append] at hts ⊢
    exact ⟨⟨_, hts.1, rfl, hl⟩, h he hts.2.1, hB hb hts.2.2⟩
  | alternative hl he hb _ hb' =>
    simp only [Statement.marks, List.cons_append, List.forall_mem_cons,
      List.forall_mem_append] at hts ⊢
    exact ⟨⟨_, hts.1, rfl, hl⟩, ⟨h he hts.2.1.1, hB hb hts.2.1.2⟩, hB hb' hts.2.2.2⟩
  | loop hl he hb =>
    simp only [Statement.marks, List.cons_append, List.forall_mem_cons,
      List.forall_mem_append] at hts ⊢
    exact ⟨⟨_, hts.1, rfl, hl⟩, h he hts.2.1, hB hb hts.2.2⟩
  | choice hl hhead hcs =>
    simp only [List.cons_append, List.forall_mem_cons, List.forall_mem_append] at hts
    rw [Statement.marks, List.forall_mem_cons, List.forall_mem_append]
    exact ⟨⟨_, hts.1, rfl, hl⟩, introduces_choiceHead h hhead hts.2.1,
      introduces_caseList h hfirst hB hcs hts.2.2⟩
  | value hl _ he =>
    rw [List.forall_mem_cons] at hts
    rw [Statement.marks, List.forall_mem_cons]
    exact ⟨⟨_, hts.1, rfl, hl⟩, by simpa using h he hts.2⟩
  | noValue hl _ =>
    simp only [Statement.marks, Option.toList_none, List.flatMap_nil,
      List.forall_mem_singleton] at hts ⊢
    exact ⟨_, hts, rfl, hl⟩

/-- Statements are introduced one after the other. -/
theorem introduces_statementList (h : IntroducesExpressions P E)
    (hfirst : FirstIn startsExpression E) (hB : Introduces P B Block.marks) (last : Lookahead) :
    Introduces P (StatementList E B last) Statement.marksAll := by
  intro ts ss hss
  induction hss with
  | nil => simp [Statement.marksAll]
  | cons hs _ ih =>
    intro hts
    simp only [Statement.marksAll, List.forall_mem_append] at hts ⊢
    exact ⟨introduces_statement h hfirst hB _ hs hts.1, ih hts.2⟩

/-- A block is introduced by its brace. -/
theorem introduces_braced (h : IntroducesExpressions P E) (hfirst : FirstIn startsExpression E)
    (hB : Introduces P B Block.marks) : Introduces P (Braced E B) Block.marks := by
  rintro _ _ ⟨hleft, hss, _⟩ hts
  simp only [Block.marks, List.cons_append, List.forall_mem_cons, List.forall_mem_append] at hts ⊢
  exact ⟨⟨_, hts.1, rfl, hleft⟩, introduces_statementList h hfirst hB _ hss hts.2.1⟩

end

/-- **Every part of a block is introduced by one of its tokens**, at every depth. -/
theorem introduces_block (depth : Nat) : Introduces P (BlockPhrase depth) Block.marks := by
  induction depth with
  | zero => exact fun _ _ h => h.elim
  | succ depth ih =>
    exact introduces_braced (introduces_expression depth) (expression_first depth) ih

/-- Each parameter is introduced by its name; the type that they share introduces nothing. -/
theorem introduces_parameterGroup :
    Introduces P ParameterGroup (List.map Parameter.mark) := by
  rintro _ _ ⟨hname, hnames, _⟩ hts
  simp only [List.forall_mem_append] at hts
  have hall := introduces_afterCommas introduces_name hnames hts.1.2
  have hone := introduces_name hname hts.1.1
  -- the marks of the parameters are those of their names
  simp only [List.forall_mem_singleton, List.forall_mem_flatMap, List.map_cons,
    List.forall_mem_cons, List.forall_mem_map] at hall hone ⊢
  exact ⟨hone, hall⟩

theorem introduces_parameterList : Introduces P ParameterList (List.map Parameter.mark) := by
  intro ts ps hps hts
  cases hps with
  | none => simp
  | some hgroup hgroups =>
    rw [List.forall_mem_append] at hts
    have hrest := introduces_afterCommas introduces_parameterGroup hgroups hts.2
    rw [List.map_append, List.forall_mem_append, List.map_flatten, ← List.flatMap_def]
    exact ⟨introduces_parameterGroup hgroup hts.1, hrest⟩

/-- A function is introduced by its name. -/
theorem introduces_function {B : Phrase Block} (h : Introduces P B Block.marks) :
    Introduces P (FunctionPhrase B) Function.marks := by
  rintro _ _ ⟨hname, _, hps, _, _, hb⟩ hts
  simp only [Function.marks, List.cons_append, List.forall_mem_cons,
    List.forall_mem_append] at hts ⊢
  exact ⟨⟨_, hts.1, rfl, hname⟩, introduces_parameterList hps hts.2.2.1.1, h hb hts.2.2.2⟩

/-- **Every part of a program is introduced by a token of it.** -/
theorem introduces_program (depth : Nat) : Introduces P (ProgramPhrase depth) Program.marks := by
  have hlist : Introduces P (FunctionList (BlockPhrase depth)) (List.flatMap Function.marks) := by
    intro ts fs hfs
    induction hfs with
    | nil => simp
    | cons hf _ ih =>
      intro hts
      rw [List.forall_mem_append] at hts
      rw [List.flatMap_cons, List.forall_mem_append]
      exact ⟨introduces_function (introduces_block depth) hf hts.1, ih hts.2⟩
  exact fun _ _ hfs => hlist hfs

end

/-! ## Tokens and texts -/

variable {limits : Limits}

/-- A lexeme other than a literal is written in one way. -/
theorem Lexical.eq_spelling {text : List Char} {l : Lexeme} {continues : Char → Bool}
    (h : Lexical limits text l continues) (hl : ∀ value, l ≠ .constant value) :
    text = l.spelling := by
  cases h with
  | newline => rfl
  | comment _ => simp [Lexeme.spelling]
  | pair hpair =>
    unfold Lexeme.ofPair? at hpair
    split at hpair <;> cases hpair <;> rfl
  | single hchar =>
    unfold Lexeme.ofChar? at hchar
    split at hchar <;> cases hchar <;> rfl
  | word _ => exact (Lexeme.spelling_ofWord _).symm
  | string _ _ => exact absurd rfl (hl _)
  | int _ _ => exact absurd rfl (hl _)
  | float _ _ _ => exact absurd rfl (hl _)

/-- Where a token is, the text of its lexeme is. -/
theorem Splits.text_at {before rest : List Char} {tokens : List Token} {token : Token}
    (h : Splits limits before rest tokens) (htoken : token ∈ tokens)
    (hne : token.lexeme ≠ .endOfInput) :
    ∃ skipped text, rest = skipped ++ text ∧ token.position = .behind (before ++ skipped) ∧
      ∃ written continues, Lexical limits written token.lexeme continues ∧ written <+: text := by
  induction h with
  | finish _ =>
    obtain rfl := List.mem_singleton.1 htoken
    exact absurd rfl hne
  | @token before gap text rest l continues tokens _ hlexical _ _ ih =>
    rcases List.mem_cons.1 htoken with rfl | htoken
    · exact ⟨gap, text ++ rest, by simp, rfl, text, continues, hlexical, List.prefix_append _ _⟩
    · obtain ⟨skipped, more, rfl, hposition, hwritten⟩ := ih htoken
      exact ⟨gap ++ text ++ skipped, more, by simp, by simpa using hposition, hwritten⟩

/-- The text of a lexeme that introduces a part begins with what introduces it. -/
theorem Opening.begins_of_admits {opening : Opening} {l : Lexeme} {written text : List Char}
    {continues : Char → Bool} (hl : opening.Admits l) (h : Lexical limits written l continues)
    (hbegins : written <+: text) : opening.Begins limits text := by
  cases opening with
  | literal value =>
    obtain rfl : l = .constant value := hl
    exact ⟨written, continues, h, hbegins⟩
  | start => exact ⟨l, written, continues, hl, h, hbegins⟩
  | sign =>
    rcases hl with rfl | rfl <;> obtain rfl := h.eq_spelling (by simp)
    · exact .inl hbegins
    · exact .inr hbegins
  | _ =>
    cases hl
    obtain rfl := h.eq_spelling (by simp)
    exact hbegins

/-- **Every position points at its text.** In the text with unified line ends, counted by newlines
and by characters, what stands at the position of a part of a parsed program begins with what
introduces that part. -/
theorem positions_point_at_text {source : String} {program : Program}
    (h : parse limits source = .ok program) :
    ∀ mark ∈ program.marks, ∃ before text, sourceChars source.toList = before ++ text ∧
      Position.behind before = mark.position ∧ mark.opening.Begins limits text := by
  obtain ⟨ts, hphrase, -, hts⟩ := derived_from_tokens h
  obtain ⟨tokens, hstream⟩ := tokenize_of_parse h
  have hsplits : Splits limits [] (sourceChars source.toList) tokens :=
    splits_of_tokenStreamFrom (c := .ofText source) (Nat.lt_succ_self _) rfl hstream
  intro mark hmark
  obtain ⟨t, ht, hposition, hadmits⟩ :=
    introduces_program (P := (· ∈ ts)) limits.nestingLimit hphrase (fun _ ht => ht) mark hmark
  obtain ⟨htoken, hne, -⟩ := hts t ht
  rw [hstream] at htoken
  obtain ⟨before, text, hsource, hbehind, written, continues, hlexical, hbegins⟩ :=
    hsplits.text_at htoken hne
  refine ⟨before, text, hsource, ?_, Opening.begins_of_admits hadmits hlexical hbegins⟩
  rw [← hposition]
  exact hbehind.symm

/-- A function with every kind of line end and most kinds of parts. -/
def markedSource : String :=
  "f(a, b int) float \x7b # both\r\n  if !(a < b) \x7b\n\treturn -a as float + 1.50\r\n  \x7d\n" ++
    "  switch int c := a \x7b > 0 => print(\"\\n\" as string), c => b, default => 0 \x7d\r\n" ++
    "  return 2.0\n\x7d"

theorem positions_point_at_text_markedSource :
    ∃ program, parse {} markedSource = .ok program ∧ program.marks.length = 31 ∧
      ∀ mark ∈ program.marks, ∃ before text, sourceChars markedSource.toList = before ++ text ∧
        Position.behind before = mark.position ∧ mark.opening.Begins {} text := by
  have hmarks : ((parse {} markedSource).toOption.any fun program =>
      decide (program.marks.length = 31)) = true := by decide +kernel
  cases hparse : parse {} markedSource with
  | error fault =>
    rw [hparse] at hmarks
    cases hmarks
  | ok program =>
    rw [hparse] at hmarks
    exact ⟨program, rfl, of_decide_eq_true hmarks, positions_point_at_text hparse⟩

end FLang
