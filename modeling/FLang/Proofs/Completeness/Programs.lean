import FLang.Proofs.Completeness.Expressions
import FLang.Proofs.Soundness.Programs

/-!
# Programs of the grammar are found

The rules for statements and blocks are complete if the rules for what is nested in them are.
Behind a statement stands the closing brace of its block or the start of the next statement
(`EndsStatement`), and no expression goes on there.
-/

namespace FLang

open Grammar Parse FLang.Parser

variable {deep : Prop} {r r' : Reader}

/-! ## Statements -/

/-- What can stand behind a statement. -/
def EndsStatement (l : Lexeme) : Prop :=
  l = .punctuation .rightBrace ∨ startsStatement l = true

/-- What starts a statement ends the one before it. -/
theorem startsStatement_ends {l : Lexeme} (h : startsStatement l = true) :
    EndsExpression l ∧ l ≠ .keyword .else ∧ l ≠ .punctuation .assign ∧
      l ≠ .punctuation .rightBrace ∧ l ≠ .endOfInput := by
  unfold startsStatement at h
  split at h <;> simp_all [EndsExpression, EndsCasted, EndsTerm]

/-- What ends a statement ends an expression in it. -/
theorem EndsStatement.endsExpression {l : Lexeme} (h : EndsStatement l) : EndsExpression l := by
  rcases h with rfl | h
  · exact endsExpression_punctuation (by simp)
  · exact (startsStatement_ends h).1

theorem EndsStatement.ne_else {l : Lexeme} (h : EndsStatement l) : l ≠ .keyword .else := by
  rcases h with rfl | h
  · simp
  · exact (startsStatement_ends h).2.1

theorem EndsStatement.ne_assign {l : Lexeme} (h : EndsStatement l) :
    l ≠ .punctuation .assign := by
  rcases h with rfl | h
  · simp
  · exact (startsStatement_ends h).2.2.1

/-- No expression starts a block, a declaration, a relation or a default case. -/
theorem startsExpression_excludes {l : Lexeme} (h : startsExpression l = true) :
    isMark .leftBrace l = false ∧ isTypeName l = false ∧ relationOperator l = none ∧
      l ≠ .keyword .default := by
  rw [startsExpression, Bool.or_eq_true] at h
  rcases h with h | h
  · rcases isSign_eq_true.1 h with rfl | rfl <;> simp [isMark, isTypeName, relationOperator]
  · unfold startsTerm at h
    split at h <;> simp_all [isMark, isTypeName, relationOperator]

/-- The rules for what a statement contains are complete. -/
structure NestedComplete (deep : Prop) (nested : Nested) (E : Phrase Expression)
    (B : Phrase Block) : Prop where
  /-- Expressions are complete. -/
  expression : RuleComplete deep EndsExpression nested.expression E startsExpression
  /-- Expressions start with the lexemes that they should. -/
  first : FirstIn startsExpression E
  /-- Blocks are complete, whatever stands behind them. -/
  block : RuleComplete deep (fun _ => True) nested.block B (isMark .leftBrace)
  /-- Blocks start with a brace. -/
  braced : FirstIn (isMark .leftBrace) B

section
variable {nested : Nested} {E : Phrase Expression} {B : Phrase Block}

/-- An expression that has to be there is found. -/
theorem NestedComplete.finds_requireExpression (h : NestedComplete deep nested E B)
    (after : String) : Finds deep EndsExpression (nested.requireExpression after) E :=
  h.expression.finds_require _

/-- A block that has to be there is found. -/
theorem NestedComplete.finds_requireBlock (h : NestedComplete deep nested E B) :
    Finds deep (fun _ => True) nested.requireBlock B :=
  h.block.finds_require _

/-- Where a block is read, an expression before it has ended. -/
theorem NestedComplete.endsExpression_of_block (h : NestedComplete deep nested E B)
    {ts : List Lookahead} {b : Block} (hb : B ts b) (hr : Reads r ts r') :
    EndsExpression r.current.lexeme := by
  obtain ⟨t, ts', rfl, hfirst⟩ := h.braced _ _ hb
  rw [hr.current_eq, of_decide_eq_true hfirst]
  exact endsExpression_punctuation (by simp)

/-- Declarations are found, and start with a type. -/
theorem declaration_complete (h : NestedComplete deep nested E B) :
    RuleComplete deep EndsExpression (declaration nested) (DeclarationPhrase E) isTypeName where
  finds := by
    intro ts d r r' hd hr hfollow
    cases hd with
    | intro htype hname hl he =>
      obtain ⟨r₁, hr₁, hr₂⟩ := hr.append_inv
      obtain ⟨r₂, hr₃, hr₄⟩ := hr₁.append_inv
      obtain ⟨r₃, hr₅, hr₆⟩ := hr₂.cons_split
      unfold declaration
      exact (typeAnnotation_complete.finds htype hr₃ trivial).bind
        ((finds_expectIdentifier hname hr₄ trivial).bind
          (Yields.bind (.ok (expect_of_reads hr₅ hl))
            ((h.finds_requireExpression _ he hr₆ hfollow).bind (.pure _))))
  declines := by
    intro r hr
    unfold declaration
    rw [bind_of_ok ((typeAnnotation_complete : RuleComplete deep _ _ _ _).declines hr)]
    rfl

/-- Behind a name, an assignment is found. -/
theorem assignment_yields (h : NestedComplete deep nested E B) {position : Position}
    {name : String} {t : Lookahead} {ts : List Lookahead} {e : Expression}
    (hl : t.lexeme = .punctuation .assign) (he : E ts e) (hr : Reads r (t :: ts) r')
    (hfollow : EndsStatement r'.current.lexeme) :
    Yields deep (assignmentOrCall nested position name r) (.assignment position name e) r' := by
  obtain ⟨r₁, hr₁, hr₂⟩ := hr.cons_split
  have hno : callArguments nested.expression name r = .ok (none, r) :=
    (callArguments_complete h.expression name).declines
      (decide_eq_false (by rw [hr.current_eq, hl]; simp))
  unfold assignmentOrCall
  exact Yields.bind (.ok hno) (Yields.bind (.ok (accept_of_reads hr₁ hl))
    ((h.finds_requireExpression _ he hr₂ hfollow.endsExpression).bind (.pure _)))

/-- Behind a name, a call is found. -/
theorem call_yields (h : NestedComplete deep nested E B) {position : Position} {name : String}
    {ts : List Lookahead} {es : List Expression} (hes : CallArguments E ts es)
    (hr : Reads r ts r') (hfollow : EndsStatement r'.current.lexeme) :
    Yields deep (assignmentOrCall nested position name r) (.call position name es) r' := by
  unfold assignmentOrCall
  refine ((callArguments_complete h.expression name).finds hes hr trivial).bind ?_
  simp only [lexeme_bind, if_neg hfollow.ne_assign]
  exact .pure _

/-- A condition is found without a block for the other case, if no `else` follows. -/
theorem conditional_yields (h : NestedComplete deep nested E B) {position : Position}
    {ts ts' : List Lookahead} {e : Expression} {b : Block} (he : E ts e) (hb : B ts' b)
    (hr : Reads r (ts ++ ts') r') (hfollow : EndsStatement r'.current.lexeme) :
    Yields deep (conditional nested position r) (.conditional position e b none) r' := by
  obtain ⟨r₁, hr₁, hr₂⟩ := hr.append_inv
  unfold conditional
  exact (h.finds_requireExpression _ he hr₁ (h.endsExpression_of_block hb hr₂)).bind
    ((h.finds_requireBlock hb hr₂ trivial).bind
      (Yields.bind (.ok (acceptKeyword_of_ne hfollow.ne_else)) (.pure _)))

/-- A condition is found with both of its blocks. -/
theorem alternative_yields (h : NestedComplete deep nested E B) {position : Position}
    {t : Lookahead} {ts ts' ts'' : List Lookahead} {e : Expression} {b b' : Block} (he : E ts e)
    (hb : B ts' b) (hl : t.lexeme = .keyword .else) (hb' : B ts'' b')
    (hr : Reads r (ts ++ ts' ++ t :: ts'') r') :
    Yields deep (conditional nested position r) (.conditional position e b (some b')) r' := by
  obtain ⟨r₁, hr₁, hr₂⟩ := hr.append_inv
  obtain ⟨r₂, hr₃, hr₄⟩ := hr₁.append_inv
  obtain ⟨r₃, hr₅, hr₆⟩ := hr₂.cons_split
  unfold conditional
  exact (h.finds_requireExpression _ he hr₃ (h.endsExpression_of_block hb hr₄)).bind
    ((h.finds_requireBlock hb hr₄ trivial).bind
      (Yields.bind (.ok (acceptKeyword_of_reads hr₅ hl))
        ((h.finds_requireBlock hb' hr₆ trivial).bind (.pure _))))

/-- A loop is found. -/
theorem loop_yields (h : NestedComplete deep nested E B) {position : Position}
    {ts ts' : List Lookahead} {e : Expression} {b : Block} (he : E ts e) (hb : B ts' b)
    (hr : Reads r (ts ++ ts') r') :
    Yields deep (Parser.loop nested position r) (.loop position e b) r' := by
  obtain ⟨r₁, hr₁, hr₂⟩ := hr.append_inv
  unfold Parser.loop
  exact (h.finds_requireExpression _ he hr₁ (h.endsExpression_of_block hb hr₂)).bind
    ((h.finds_requireBlock hb hr₂ trivial).bind (.pure _))

/-- A value behind `return` is found on the same line. -/
theorem value_yields (h : NestedComplete deep nested E B) {position : Position} {t : Lookahead}
    {ts : List Lookahead} {e : Expression} (hline : t.newlineBefore = false) (he : E (t :: ts) e)
    (hr : Reads r (t :: ts) r') (hfollow : EndsStatement r'.current.lexeme) :
    Yields deep (Parser.giveBack nested position r) (.giveBack position (some e)) r' := by
  unfold Parser.giveBack
  rw [newlineBefore_bind, hr.current_eq, if_neg (by rw [hline]; exact Bool.false_ne_true)]
  exact (h.expression.finds he hr hfollow.endsExpression).bind (.pure _)

/-- Nothing is taken for the value of `return` that stands on the next line or starts no
expression. -/
theorem noValue_yields (h : NestedComplete deep nested E B) {position : Position}
    (hnext : r.current.newlineBefore = true ∨ ¬ StartsExpression r.current) :
    Yields deep (Parser.giveBack nested position r) (.giveBack position none) r := by
  unfold Parser.giveBack
  rw [newlineBefore_bind]
  by_cases hline : r.current.newlineBefore = true
  · rw [if_pos hline]
    exact .pure _
  · have hfirst : startsExpression r.current.lexeme = false := by
      rw [← Bool.not_eq_true, ← startsExpression_iff]
      exact hnext.resolve_left hline
    rw [if_neg hline]
    exact Yields.bind (.ok (h.expression.declines hfirst)) (.pure _)

/-! ### Choices -/

/-- What a case does is found, as a block or as an expression. -/
theorem finds_caseOutput (h : NestedComplete deep nested E B) :
    Finds deep EndsExpression (caseOutput nested) (OutputPhrase E B) := by
  intro ts output r r' hout hr hfollow
  unfold caseOutput
  cases hout with
  | block hb => exact (h.block.finds hb hr trivial).bind (.pure _)
  | expression he =>
    have hno : nested.block r = .ok (none, r) := by
      obtain ⟨t, ts', rfl, hfirst⟩ := h.first _ _ he
      rw [← hr.current_eq] at hfirst
      exact h.block.declines (startsExpression_excludes hfirst).1
    exact Yields.bind (.ok hno) ((h.finds_requireExpression _ he hr hfollow).bind (.pure _))

/-- Tests are found, with a relation in front of them or without. -/
theorem caseTest_complete (h : NestedComplete deep nested E B) :
    RuleComplete deep EndsExpression (caseTest nested) (CaseTest E) startsTest where
  finds := by
    intro ts tested r r' htest hr hfollow
    unfold caseTest
    rw [lexeme_bind]
    cases htest with
    | compared hl he =>
      obtain ⟨r₁, hr₁, hr₂⟩ := hr.cons_split
      rw [hr.current_eq]
      simp only [relationOperator_eq_some.2 hl]
      exact Yields.bind (.ok (advance_of_reads hr₁))
        ((h.finds_requireExpression _ he hr₂ hfollow).bind (.pure _))
    | plain he =>
      obtain ⟨t, ts', rfl, hfirst⟩ := h.first _ _ he
      rw [hr.current_eq]
      simp only [(startsExpression_excludes hfirst).2.2.1]
      exact (h.expression.finds he hr hfollow).bind (.pure _)
  declines := by
    intro r hr
    rw [startsTest, Bool.or_eq_false_iff, Option.isSome_eq_false_iff, Option.isNone_iff_eq_none]
      at hr
    unfold caseTest
    rw [lexeme_bind]
    simp only [hr.1]
    rw [bind_of_ok (h.expression.declines hr.2)]
    rfl

theorem startsTest_ne_default {l : Lexeme} (h : startsTest l = true) :
    l ≠ .keyword .default := by
  rintro rfl
  cases h

/-- Cases are found, default cases among them. -/
theorem switchCase_complete (h : NestedComplete deep nested E B) :
    RuleComplete deep EndsExpression (switchCase nested) (CasePhrase E B) startsCase where
  finds := by
    intro ts c r r' hc hr hfollow
    unfold switchCase
    rw [token_bind]
    cases hc with
    | fallback hl harrow hout =>
      obtain ⟨r₁, hr₁, hr₂⟩ := hr.cons_split
      obtain ⟨r₂, hr₃, hr₄⟩ := hr₂.cons_split
      refine Yields.bind (.ok (acceptKeyword_of_reads hr₁ hl)) ?_
      rw [hr.current_eq]
      exact Yields.bind (.ok (expect_of_reads hr₃ harrow))
        ((finds_caseOutput h hout hr₄ hfollow).bind (.pure _))
    | test htest harrow hout =>
      obtain ⟨r₁, hr₁, hr₂⟩ := hr.append_inv
      obtain ⟨r₂, hr₃, hr₄⟩ := hr₂.cons_split
      obtain ⟨t, ts', heq, hfirst⟩ := caseTest_first h.first _ _ htest
      obtain ⟨rfl, rfl⟩ := List.cons.inj heq
      rw [← hr₁.current_eq] at hfirst
      refine Yields.bind (.ok (acceptKeyword_of_ne (startsTest_ne_default hfirst))) ?_
      have hnext : EndsExpression r₁.current.lexeme := by
        rw [hr₃.current_eq, harrow]
        exact endsExpression_punctuation (by simp)
      rw [hr₁.current_eq]
      exact ((caseTest_complete h).finds htest hr₁ hnext).bind
        (Yields.bind (.ok (expect_of_reads hr₃ harrow))
          ((finds_caseOutput h hout hr₄ hfollow).bind (.pure _)))
  declines := by
    intro r hr
    rw [startsCase, Bool.or_eq_false_iff] at hr
    unfold switchCase
    rw [token_bind, bind_of_ok (acceptKeyword_of_ne (of_decide_eq_false hr.1))]
    simp only [Bool.false_eq_true, if_false]
    rw [bind_of_ok ((caseTest_complete h).declines hr.2)]
    rfl

/-- The head of a choice is found up to its brace. -/
theorem finds_choiceHead (h : NestedComplete deep nested E B) :
    Finds deep (· = .punctuation .leftBrace) (choiceHead nested) (ChoiceHead E) := by
  intro ts head r r' hhead hr hfollow
  have hopen : EndsExpression r'.current.lexeme := by
    rw [hfollow]
    exact endsExpression_punctuation (by simp)
  have hcomma : EndsExpression (.punctuation .comma) := endsExpression_punctuation (by simp)
  unfold choiceHead
  cases hhead with
  | guards hd hds =>
    obtain ⟨r₁, hr₁, hr₂⟩ := hr.append_inv
    have hnext : EndsExpression r₁.current.lexeme := hds.follows hr₂ hcomma hopen
    refine ((declaration_complete h).finds hd hr₁ hnext).bind ((finds_moreAfterCommas
      ((declaration_complete h).finds_require _) hcomma hds hr₂ ⟨hopen, ?_⟩).bind (.pure _))
    rw [hfollow]
    simp
  | subject he =>
    have hno : declaration nested r = .ok (none, r) := by
      obtain ⟨t, ts', rfl, hfirst⟩ := h.first _ _ he
      rw [← hr.current_eq] at hfirst
      exact (declaration_complete h).declines (startsExpression_excludes hfirst).2.1
    exact Yields.bind (.ok hno) ((h.expression.finds he hr hopen).bind (.pure _))
  | bare =>
    obtain rfl := hr.nil_inv
    have hno : declaration nested r' = .ok (none, r') :=
      (declaration_complete h).declines (by rw [hfollow]; rfl)
    have hno' : nested.expression r' = .ok (none, r') :=
      h.expression.declines (by rw [hfollow]; rfl)
    exact Yields.bind (.ok hno) (Yields.bind (.ok hno') (.pure _))

/-- The cases of a choice are found with their braces. -/
theorem finds_choiceCases (h : NestedComplete deep nested E B) :
    Finds deep (fun _ => True) (choiceCases nested) (CaseList E B) := by
  intro ts cs r r' hcs hr _
  cases hcs with
  | intro hl hc hmore hright =>
    obtain ⟨r₁, hr₁, hr₂⟩ := hr.append_inv
    obtain ⟨r₂, hr₃, hr₄⟩ := hr₁.append_inv
    obtain ⟨r₃, hr₅, hr₆⟩ := hr₃.cons_split
    have hcomma : EndsExpression (.punctuation .comma) := endsExpression_punctuation (by simp)
    have hclose : EndsExpression r₁.current.lexeme := by
      rw [hr₂.current_eq, hright]
      exact endsExpression_punctuation (by simp)
    have hnext : EndsExpression r₂.current.lexeme := hmore.follows hr₄ hcomma hclose
    unfold choiceCases
    refine Yields.bind (.ok (expect_of_reads hr₅ hl))
      (((switchCase_complete h).finds_require _ hc hr₆ hnext).bind
        ((finds_moreAfterCommas ((switchCase_complete h).finds_require _) hcomma hmore hr₄
          ⟨hclose, ?_⟩).bind (Yields.bind (.ok (expect_of_reads hr₂ hright)) (.pure _))))
    rw [hr₂.current_eq, hright]
    simp

/-- A choice is found. -/
theorem choice_yields (h : NestedComplete deep nested E B) {position : Position}
    {ts ts' : List Lookahead} {guards : List Declaration} {subject : Option Expression}
    {cs : List Case} (hhead : ChoiceHead E ts (guards, subject)) (hcs : CaseList E B ts' cs)
    (hr : Reads r (ts ++ ts') r') :
    Yields deep (choice nested position r) (.choice position guards subject cs) r' := by
  obtain ⟨r₁, hr₁, hr₂⟩ := hr.append_inv
  have hopen : r₁.current.lexeme = .punctuation .leftBrace := by
    cases hcs with
    | intro hl _ _ _ =>
      rw [List.append_assoc, List.cons_append] at hr₂
      rw [hr₂.current_eq]
      exact hl
  unfold choice
  exact (finds_choiceHead h hhead hr₁ hopen).bind
    ((finds_choiceCases h hcs hr₂ trivial).bind (.pure _))

/-! ### Blocks -/

/-- A statement starts with a token that starts statements. -/
theorem statement_first {next : Lookahead} :
    FirstIn startsStatement (StatementPhrase E B next) := by
  intro ts s hs
  cases hs with
  | declaration hd =>
    cases hd with
    | intro htype _ _ _ =>
      cases htype with
      | intro hl => exact ⟨_, _, rfl, by rw [hl]; rfl⟩
  | assignment hl _ _ => exact ⟨_, _, rfl, by rw [hl]; rfl⟩
  | call hl _ => exact ⟨_, _, rfl, by rw [hl]; rfl⟩
  | conditional hl _ _ => exact ⟨_, _, rfl, by rw [hl]; rfl⟩
  | alternative hl _ _ _ _ => exact ⟨_, _, rfl, by rw [hl]; rfl⟩
  | loop hl _ _ => exact ⟨_, _, rfl, by rw [hl]; rfl⟩
  | choice hl _ _ => exact ⟨_, _, rfl, by rw [hl]; rfl⟩
  | value hl _ _ => exact ⟨_, _, rfl, by rw [hl]; rfl⟩
  | noValue hl _ => exact ⟨_, _, rfl, by rw [hl]; rfl⟩

/-- A statement is found in front of the token that it is read in front of. -/
theorem statement_yields (h : NestedComplete deep nested E B) {ts : List Lookahead}
    {s : Statement} (hs : StatementPhrase E B r'.current ts s) (hr : Reads r ts r')
    (hfollow : EndsStatement r'.current.lexeme) :
    Yields deep (statement nested r) (some s) r' := by
  unfold statement
  rw [token_bind]
  cases hs with
  | declaration hd =>
    -- the rule for declarations looks at the type itself, so the token is not read here but only
    -- seen
    have htype : ∃ type, r.current.token.lexeme = .typeName type := by
      cases hd with
      | intro htype _ _ _ =>
        cases htype with
        | intro hl =>
          rw [List.append_assoc, List.singleton_append] at hr
          rw [hr.current_eq]
          exact ⟨_, hl⟩
    obtain ⟨type, hl⟩ := htype
    simp only [hl]
    exact ((declaration_complete h).finds hd hr hfollow.endsExpression).bind (.pure _)
  | assignment hl hassign he =>
    obtain ⟨r₁, hr₁, hr₂⟩ := hr.cons_split
    rw [hr.current_eq]
    simp only [hl]
    exact Yields.bind (.ok (advance_of_reads hr₁))
      ((assignment_yields h hassign he hr₂ hfollow).bind (.pure _))
  | call hl hes =>
    obtain ⟨r₁, hr₁, hr₂⟩ := hr.cons_split
    rw [hr.current_eq]
    simp only [hl]
    exact Yields.bind (.ok (advance_of_reads hr₁))
      ((call_yields h hes hr₂ hfollow).bind (.pure _))
  | conditional hl he hb =>
    obtain ⟨r₁, hr₁, hr₂⟩ := hr.cons_split
    rw [hr₁.current_eq]
    simp only [hl]
    exact Yields.bind (.ok (advance_of_reads hr₁))
      ((conditional_yields h he hb hr₂ hfollow).bind (.pure _))
  | alternative hl he hb helse hb' =>
    obtain ⟨r₁, hr₁, hr₂⟩ := hr.cons_split
    rw [hr₁.current_eq]
    simp only [hl]
    exact Yields.bind (.ok (advance_of_reads hr₁))
      ((alternative_yields h he hb helse hb' hr₂).bind (.pure _))
  | loop hl he hb =>
    obtain ⟨r₁, hr₁, hr₂⟩ := hr.cons_split
    rw [hr₁.current_eq]
    simp only [hl]
    exact Yields.bind (.ok (advance_of_reads hr₁)) ((loop_yields h he hb hr₂).bind (.pure _))
  | choice hl hhead hcs =>
    obtain ⟨r₁, hr₁, hr₂⟩ := hr.cons_split
    rw [hr₁.current_eq]
    simp only [hl]
    exact Yields.bind (.ok (advance_of_reads hr₁))
      ((choice_yields h hhead hcs hr₂).bind (.pure _))
  | value hl hline he =>
    obtain ⟨r₁, hr₁, hr₂⟩ := hr.cons_split
    rw [hr.current_eq]
    simp only [hl]
    exact Yields.bind (.ok (advance_of_reads hr₁))
      ((value_yields h hline he hr₂ hfollow).bind (.pure _))
  -- whether there is a value is decided by what follows, which belongs to the next statement
  | noValue hl hnext =>
    rw [hr.current_eq]
    simp only [hl]
    exact Yields.bind (.ok (advance_of_reads hr)) ((noValue_yields h hnext).bind (.pure _))

/-- There are no more statements than tokens. -/
theorem Grammar.StatementList.length_le {last : Lookahead} {ts : List Lookahead}
    {ss : List Statement} (h : StatementList E B last ts ss) : ss.length ≤ ts.length := by
  induction h with
  | nil => exact Nat.le_refl _
  | cons hs _ ih =>
    obtain ⟨t, ts', rfl, -⟩ := statement_first _ _ hs
    simp only [List.length_cons, List.length_append]
    omega

/-- Where a list of statements is read, a statement before it has ended. -/
theorem Grammar.StatementList.endsStatement {right : Lookahead} {ts : List Lookahead}
    {ss : List Statement} (h : StatementList E B right ts ss)
    (hright : right.lexeme = .punctuation .rightBrace) : EndsStatement (ts.headD right).lexeme := by
  cases h with
  | nil => exact .inl hright
  | cons hs _ =>
    obtain ⟨t, ts', rfl, hfirst⟩ := statement_first _ _ hs
    exact .inr hfirst

/-- The statements of a block are found with a bound above their number. -/
theorem statements_yields (h : NestedComplete deep nested E B) {right : Lookahead}
    (hright : right.lexeme = .punctuation .rightBrace) {ts : List Lookahead}
    {ss : List Statement} (hss : StatementList E B right ts ss) :
    ∀ {fuel : Nat} {r : Reader}, ss.length < fuel → Reads r (ts ++ [right]) r' →
      Yields deep (statements nested fuel r) ss r' := by
  induction hss with
  | nil =>
    intro fuel r hfuel hr
    obtain ⟨fuel, rfl⟩ : ∃ n, fuel = n + 1 := ⟨fuel - 1, by omega⟩
    unfold statements
    exact Yields.bind (.ok (accept_of_reads hr hright)) (.pure _)
  | cons hs hrest ih =>
    intro fuel r hfuel hr
    obtain ⟨fuel, rfl⟩ : ∃ n, fuel = n + 1 := ⟨fuel - 1, by omega⟩
    rw [List.append_assoc] at hr
    obtain ⟨r₁, hr₁, hr₂⟩ := hr.append_inv
    obtain ⟨t, ts', rfl, hfirst⟩ := statement_first _ _ hs
    -- the grammar and the parser look at the same token behind the statement
    have hnext := hr₂.current_eq_headD
    have hfollow : EndsStatement r₁.current.lexeme := by
      rw [hnext]
      exact hrest.endsStatement hright
    rw [← hnext] at hs
    obtain ⟨-, -, -, hbrace, hend⟩ := startsStatement_ends hfirst
    rw [← hr₁.current_eq] at hbrace hend
    unfold statements
    refine Yields.bind (.ok (accept_of_ne hbrace)) ?_
    simp only [Bool.false_eq_true, if_false, lexeme_bind, if_neg hend]
    exact (statement_yields h hs hr₁ hfollow).bind
      ((ih (by simpa using hfuel) hr₂).bind (.pure _))

/-- Blocks are found, and start with a brace. -/
theorem blockOf_complete (h : NestedComplete deep nested E B) :
    RuleComplete deep (fun _ => True) (blockOf nested) (Braced E B) (isMark .leftBrace) where
  finds := by
    intro ts b r r' hb hr _
    unfold blockOf
    rw [token_bind]
    cases hb with
    | @intro left right ts ss hl hss hright =>
      rw [List.cons_append] at hr
      obtain ⟨r₁, hr₁, hr₂⟩ := hr.cons_split
      -- every statement takes a token, so the loop does not run out of rounds
      have hfuel : ss.length < r₁.budget + 1 := by
        have hlen := hss.length_le
        have hread := hr₂.length_le
        simp only [List.length_append, List.length_singleton] at hread
        rw [Reader.budget]
        omega
      refine Yields.bind (.ok (accept_of_reads hr₁ hl)) ?_
      simp only [if_true, budget_bind, hr.current_eq]
      exact (statements_yields h hright hss hfuel hr₂).bind (.pure _)
  declines := by
    intro r hr
    unfold blockOf
    rw [token_bind, bind_of_ok (accept_of_ne (of_decide_eq_false hr))]
    rfl

end

theorem braced_first {E : Phrase Expression} {B : Phrase Block} :
    FirstIn (isMark .leftBrace) (Braced E B) := by
  intro ts b hb
  cases hb with
  | intro hl _ _ => exact ⟨_, _, rfl, decide_eq_true hl⟩

/-- A block starts with a brace, at every depth. -/
theorem block_first (n : Nat) : FirstIn (isMark .leftBrace) (BlockPhrase n) := by
  cases n with
  | zero => intro ts b hb; cases hb
  | succ n => exact braced_first

/-- **Blocks of any depth are found**, or refused if they are nested deeper than allowed. -/
theorem block_complete (depth n : Nat) :
    RuleComplete (depth < n) (fun _ => True) (Parser.block depth) (BlockPhrase n)
      (isMark .leftBrace) := by
  induction depth generalizing n with
  | zero =>
    constructor
    · intro ts b r r' hb hr _
      obtain ⟨t, ts', rfl, hfirst⟩ := block_first n _ _ hb
      have hn : 0 < n := Nat.pos_of_ne_zero (by rintro rfl; exact hb)
      refine .inr ⟨hn, t.position, ?_⟩
      unfold Parser.block
      rw [lexeme_bind, hr.current_eq, if_pos (of_decide_eq_true hfirst), ← hr.current_eq]
      rfl
    · intro r hr
      unfold Parser.block
      rw [lexeme_bind, if_neg (of_decide_eq_false hr)]
      rfl
  | succ depth ih =>
    have hnested : ∀ n, NestedComplete (depth < n) ⟨Parser.expression depth, Parser.block depth⟩
        (ExpressionPhrase n) (BlockPhrase n) := fun n =>
      ⟨expression_complete depth n, expression_first n, ih n, block_first n⟩
    cases n with
    | zero => exact ⟨fun hb => hb.elim, (blockOf_complete (hnested 0)).declines⟩
    | succ n =>
      rw [Nat.succ_lt_succ_iff]
      exact blockOf_complete (hnested n)

/-! ## Functions and programs -/

/-- Parameters that share a type are found, and start with a name. -/
theorem parameterGroup_complete :
    RuleComplete deep (fun _ => True) parameterGroup ParameterGroup isName where
  finds := by
    intro ts ps r r' hps hr _
    unfold parameterGroup
    rw [token_bind]
    cases hps with
    | intro hname hnames htype =>
      cases hname with
      | intro hl =>
        obtain ⟨r₁, hr₁, hr₂⟩ := hr.append_inv
        rw [List.singleton_append] at hr₁
        obtain ⟨r₂, hr₃, hr₄⟩ := hr₁.cons_split
        have hnext : r₁.current.lexeme ≠ .punctuation .comma := by
          cases htype with
          | intro ht =>
            rw [hr₂.current_eq, ht]
            simp
        rw [hr₁.current_eq]
        simp only [hl]
        exact Yields.bind (.ok (advance_of_reads hr₃))
          ((finds_moreAfterCommas finds_expectIdentifier trivial hnames hr₄
            ⟨trivial, hnext⟩).bind
            ((typeAnnotation_complete.finds_require _ htype hr₂ trivial).bind (.pure _)))
  declines := by
    intro r hr
    unfold parameterGroup
    rw [token_bind]
    generalize hl : r.current.token.lexeme = l
    rw [Lookahead.lexeme, hl] at hr
    cases l with
    | identifier name => cases hr
    | _ => rfl

/-- Parameters are found up to their closing parenthesis. -/
theorem finds_parameters :
    Finds deep (· = .punctuation .rightParenthesis) parameters ParameterList := by
  intro ts ps r r' hps hr hfollow
  have hrule : RuleComplete deep (fun _ => True) parameterGroup ParameterGroup isName :=
    parameterGroup_complete
  unfold parameters
  cases hps with
  | none =>
    obtain rfl := hr.nil_inv
    exact Yields.bind (.ok (hrule.declines (by rw [hfollow]; rfl))) (.pure _)
  | some hgroup hgroups =>
    obtain ⟨r₁, hr₁, hr₂⟩ := hr.append_inv
    have hnext : r'.current.lexeme ≠ .punctuation .comma := by
      rw [hfollow]
      simp
    exact (hrule.finds hgroup hr₁ trivial).bind
      ((finds_moreAfterCommas (hrule.finds_require _) trivial hgroups hr₂
        ⟨trivial, hnext⟩).bind (.pure _))

section
variable {nested : Nested} {B : Phrase Block}

/-- Functions are found, and start with a name. -/
theorem functionOf_complete
    (h : RuleComplete deep (fun _ => True) nested.block B (isMark .leftBrace))
    (hB : FirstIn (isMark .leftBrace) B) :
    RuleComplete deep (fun _ => True) (functionOf nested) (FunctionPhrase B) isName where
  finds := by
    intro ts f r r' hf hr _
    unfold functionOf
    rw [token_bind]
    cases hf with
    | intro hname hleft hps hright htype hbody =>
      obtain ⟨r₁, hr₁, hr₂⟩ := hr.append_inv
      obtain ⟨r₂, hr₃, hr₄⟩ := hr₁.append_inv
      obtain ⟨r₃, hr₅, hr₆⟩ := hr₄.cons_split
      obtain ⟨r₄, hr₇, hr₈⟩ := hr₃.cons_split
      obtain ⟨r₅, hr₉, hr₁₀⟩ := hr₈.cons_split
      have hclose : r₂.current.lexeme = .punctuation .rightParenthesis := by
        rw [hr₄.current_eq]
        exact hright
      rw [hr₃.current_eq]
      simp only [hname]
      refine Yields.bind (.ok (advance_of_reads hr₇))
        (Yields.bind (.ok (expect_of_reads hr₉ hleft))
          ((finds_parameters hps hr₁₀ hclose).bind
            (Yields.bind (.ok (expect_of_reads hr₅ hright)) ?_)))
      cases htype with
      | none =>
        obtain rfl := hr₆.nil_inv
        -- the brace of the body names no type
        have hno : typeAnnotation r₁ = .ok (none, r₁) := by
          obtain ⟨t, ts', rfl, hfirst⟩ := hB _ _ hbody
          refine (typeAnnotation_complete : RuleComplete deep _ _ _ _).declines ?_
          rw [hr₂.current_eq, of_decide_eq_true hfirst]
          rfl
        exact Yields.bind (.ok hno) ((h.finds_require _ hbody hr₂ trivial).bind (.pure _))
      | some htype =>
        exact (typeAnnotation_complete.finds htype hr₆ trivial).bind
          ((h.finds_require _ hbody hr₂ trivial).bind (.pure _))
  declines := by
    intro r hr
    unfold functionOf
    rw [token_bind]
    generalize hl : r.current.token.lexeme = l
    rw [Lookahead.lexeme, hl] at hr
    cases l with
    | identifier name => cases hr
    | _ => rfl

theorem function_first : FirstIn isName (FunctionPhrase B) := by
  intro ts f hf
  cases hf with
  | intro hl _ _ _ _ _ => exact ⟨_, _, rfl, by rw [hl]; rfl⟩

/-- There are no more functions than tokens. -/
theorem Grammar.FunctionList.length_le {ts : List Lookahead} {fs : List Function}
    (h : FunctionList B ts fs) : fs.length ≤ ts.length := by
  induction h with
  | nil => exact Nat.le_refl _
  | cons hf _ ih =>
    obtain ⟨t, ts', rfl, -⟩ := function_first _ _ hf
    simp only [List.length_cons, List.length_append]
    omega

/-- The loop over functions finds functions of new names up to the end of the input. -/
theorem functions_yields
    (h : RuleComplete deep (fun _ => True) nested.block B (isMark .leftBrace))
    (hB : FirstIn (isMark .leftBrace) B) {ts : List Lookahead} {fs : List Function}
    (hfs : FunctionList B ts fs) (hend : r'.current.lexeme = .endOfInput) :
    ∀ {fuel : Nat} {defined : Program} {r : Reader}, fs.length ≤ fuel → Reads r ts r' →
      ((defined.functions ++ fs).map Function.name).Nodup →
      Yields deep (functions nested fuel defined r) ⟨defined.functions ++ fs⟩ r' := by
  induction hfs with
  | nil =>
    intro fuel defined r _ hr _
    obtain rfl := hr.nil_inv
    rw [List.append_nil]
    cases fuel with
    | zero => exact .pure _
    | succ fuel =>
      unfold functions
      have hno : functionOf nested r' = .ok (none, r') :=
        (functionOf_complete h hB).declines (by rw [hend]; rfl)
      exact Yields.bind (.ok hno) (.pure _)
  | @cons ts ts' f fs hf _ ih =>
    intro fuel defined r hfuel hr hnodup
    obtain ⟨fuel, rfl⟩ : ∃ n, fuel = n + 1 := ⟨fuel - 1, by simp at hfuel; omega⟩
    obtain ⟨r₁, hr₁, hr₂⟩ := hr.append_inv
    -- no function before this one has its name, so it is not refused
    have hnew : defined.find? f.name = none := by
      refine List.find?_eq_none.2 fun g hg => ?_
      rw [List.map_append, List.nodup_append] at hnodup
      have hne := hnodup.2.2 _ (List.mem_map_of_mem hg) f.name (by simp)
      simpa using hne
    have happend : defined.functions ++ f :: fs = (defined.functions ++ [f]) ++ fs :=
      List.append_cons _ _ _
    rw [happend] at hnodup ⊢
    unfold functions
    refine ((functionOf_complete h hB).finds hf hr₁ trivial).bind ?_
    simp only [hnew]
    exact ih (by simpa using hfuel) hr₂ hnodup

/-- A program is found if its functions have different names. -/
theorem programOf_yields
    (h : RuleComplete deep (fun _ => True) nested.block B (isMark .leftBrace))
    (hB : FirstIn (isMark .leftBrace) B) {ts : List Lookahead} {program : Program}
    (hfs : FunctionList B ts program.functions) (hr : Reads r ts r')
    (hend : r'.current.lexeme = .endOfInput)
    (hnodup : (program.functions.map Function.name).Nodup) :
    Yields deep (programOf nested r) program r' := by
  have hlen := hfs.length_le
  have hread := hr.length_le
  unfold programOf
  rw [budget_bind]
  have hfound : Yields deep (functions nested r.budget ⟨[]⟩ r) program r' :=
    functions_yields h hB hfs hend (by rw [Reader.budget]; omega) hr hnodup
  refine hfound.bind ?_
  rw [lexeme_bind, if_pos hend]
  exact .pure _

end

end FLang
