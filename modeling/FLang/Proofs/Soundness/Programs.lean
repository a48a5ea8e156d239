import FLang.Proofs.Soundness.Expressions

/-!
# Programs are built as the grammar derives them

The rules for statements and blocks are sound if the rules for what is nested in them are, so that
soundness of `Parser.block` is an induction on its depth. A program that is built has functions of
different names.
-/

namespace FLang

open Grammar Parse FLang.Parser

/-! ## Statements -/

/-- The rules for what a statement contains are sound. -/
structure NestedSound (nested : Nested) (E : Phrase Expression) (B : Phrase Block) : Prop where
  /-- Expressions are sound. -/
  expression : RuleSound nested.expression E startsExpression
  /-- Expressions start with the lexemes that they should. -/
  first : FirstIn startsExpression E
  /-- Blocks are sound. -/
  block : RuleSound nested.block B (isMark .leftBrace)

section
variable {nested : Nested} {E : Phrase Expression} {B : Phrase Block}

/-- An expression that has to be there is built as the grammar has it. -/
theorem NestedSound.builds_requireExpression (h : NestedSound nested E B) (after : String) :
    Builds (nested.requireExpression after) E :=
  h.expression.builds_require _

/-- A block that has to be there is built as the grammar has it. -/
theorem NestedSound.builds_requireBlock (h : NestedSound nested E B) :
    Builds nested.requireBlock B :=
  h.block.builds_require _

/-- A declaration is built, or the rule declines where there is no type. -/
theorem declaration_sound (h : NestedSound nested E B) :
    RuleSound (declaration nested) (DeclarationPhrase E) isTypeName where
  built := by
    intro r a r' hr
    unfold declaration at hr
    obtain ⟨x, r₁, hx, hk⟩ := bind_eq_ok.1 hr
    cases x with
    | none => exact absurd hk pure_none_ne_some
    | some type =>
      obtain ⟨ts, hts, htype⟩ := typeAnnotation_sound.built hx
      obtain ⟨⟨position, name⟩, r₂, hname, hk⟩ := bind_eq_ok.1 hk
      obtain ⟨u, r₃, hdeclare, hk⟩ := bind_eq_ok.1 hk
      obtain ⟨e, r₄, he, hk⟩ := bind_eq_ok.1 hk
      obtain ⟨rfl, rfl⟩ := pure_some_inv hk
      obtain ⟨ts', hts', hname⟩ := builds_expectIdentifier hname
      obtain ⟨hl, hmark⟩ := expect_inv hdeclare
      obtain ⟨ts'', hts'', he⟩ := h.builds_requireExpression _ he
      exact ⟨_, (hts.append hts').append (hmark.append hts''), .intro htype hname hl he⟩
  declined := by
    intro r r' hr
    unfold declaration at hr
    obtain ⟨x, r₁, hx, hk⟩ := bind_eq_ok.1 hr
    cases x with
    | none =>
      obtain ⟨-, rfl⟩ := pure_eq_ok.1 hk
      exact typeAnnotation_sound.declined hx
    | some type => exact not_declined hk (.bind fun _ => .bind fun _ => .bind fun _ => .pure _)

/-- What follows a name is an assignment to it or a call of it. -/
theorem assignmentOrCall_sound (h : NestedSound nested E B) {start r r' : Reader} {name : String}
    {s : Statement} (hname : start.current.lexeme = .identifier name)
    (hread : Reads start [start.current] r)
    (hr : assignmentOrCall nested start.current.position name r = .ok (s, r')) :
    ∃ ts, Reads start ts r' ∧ StatementPhrase E B r'.current ts s := by
  unfold assignmentOrCall at hr
  obtain ⟨x, r₁, hx, hk⟩ := bind_eq_ok.1 hr
  cases x with
  | some es =>
    obtain ⟨ts, hts, hes⟩ := (callArguments_sound h.expression name).built hx
    simp only [lexeme_bind] at hk
    split at hk
    · exact absurd hk fail_ne_ok
    · obtain ⟨rfl, rfl⟩ := pure_eq_ok.1 hk
      exact ⟨_, hread.append hts, .call hname hes⟩
  | none =>
    obtain ⟨rfl, -⟩ := (callArguments_sound h.expression name).declined hx
    obtain ⟨b, r₂, hb, hb'⟩ := bind_eq_ok.1 hk
    rcases accept_inv hb with ⟨rfl, hl, hassign⟩ | ⟨rfl, -, -⟩
    · obtain ⟨e, r₃, he, hk⟩ := bind_eq_ok.1 hb'
      obtain ⟨rfl, rfl⟩ := pure_eq_ok.1 hk
      obtain ⟨ts, hts, he⟩ := h.builds_requireExpression _ he
      exact ⟨_, hread.append (hassign.append hts), .assignment hname hl he⟩
    · exact absurd hb' fail_ne_ok

/-- Behind `if`, a condition is built with one block or with two. -/
theorem conditional_sound (h : NestedSound nested E B) {start r r' : Reader} {s : Statement}
    (hif : start.current.lexeme = .keyword .if) (hread : Reads start [start.current] r)
    (hr : conditional nested start.current.position r = .ok (s, r')) :
    ∃ ts, Reads start ts r' ∧ StatementPhrase E B r'.current ts s := by
  unfold conditional at hr
  obtain ⟨e, r₁, he, hk⟩ := bind_eq_ok.1 hr
  obtain ⟨b, r₂, hb, hk⟩ := bind_eq_ok.1 hk
  obtain ⟨ts, hts, he⟩ := h.builds_requireExpression _ he
  obtain ⟨ts', hts', hthen⟩ := h.builds_requireBlock hb
  obtain ⟨c, r₃, hc, hc'⟩ := bind_eq_ok.1 hk
  rcases acceptKeyword_inv hc with ⟨rfl, hl, helse⟩ | ⟨rfl, -, rfl⟩
  · obtain ⟨b', r₄, hb', hk⟩ := bind_eq_ok.1 hc'
    obtain ⟨rfl, rfl⟩ := pure_eq_ok.1 hk
    obtain ⟨ts'', hts'', hb'⟩ := h.builds_requireBlock hb'
    exact ⟨_, ((hread.append hts).append hts').append (helse.append hts''),
      .alternative hif he hthen hl hb'⟩
  · obtain ⟨rfl, rfl⟩ := pure_eq_ok.1 hc'
    exact ⟨_, (hread.append hts).append hts', .conditional hif he hthen⟩

/-- Behind `while`, a loop is built. -/
theorem loop_sound (h : NestedSound nested E B) {start r r' : Reader} {s : Statement}
    (hwhile : start.current.lexeme = .keyword .while) (hread : Reads start [start.current] r)
    (hr : Parser.loop nested start.current.position r = .ok (s, r')) :
    ∃ ts, Reads start ts r' ∧ StatementPhrase E B r'.current ts s := by
  unfold Parser.loop at hr
  obtain ⟨e, r₁, he, hk⟩ := bind_eq_ok.1 hr
  obtain ⟨b, r₂, hb, hk⟩ := bind_eq_ok.1 hk
  obtain ⟨rfl, rfl⟩ := pure_eq_ok.1 hk
  obtain ⟨ts, hts, he⟩ := h.builds_requireExpression _ he
  obtain ⟨ts', hts', hb⟩ := h.builds_requireBlock hb
  exact ⟨_, (hread.append hts).append hts', .loop hwhile he hb⟩

/-- A `return` has a value only on its line, and none only where none can start. -/
theorem giveBack_sound (h : NestedSound nested E B) {start r r' : Reader} {s : Statement}
    (hreturn : start.current.lexeme = .keyword .return) (hread : Reads start [start.current] r)
    (hr : Parser.giveBack nested start.current.position r = .ok (s, r')) :
    ∃ ts, Reads start ts r' ∧ StatementPhrase E B r'.current ts s := by
  unfold Parser.giveBack at hr
  rw [newlineBefore_bind] at hr
  split at hr
  · next hnew =>
    obtain ⟨rfl, rfl⟩ := pure_eq_ok.1 hr
    exact ⟨_, hread, .noValue hreturn (.inl hnew)⟩
  · next hnew =>
    obtain ⟨x, r₁, hx, hk⟩ := bind_eq_ok.1 hr
    obtain ⟨rfl, rfl⟩ := pure_eq_ok.1 hk
    cases x with
    | none =>
      obtain ⟨rfl, hfirst⟩ := h.expression.declined hx
      refine ⟨_, hread, .noValue hreturn (.inr ?_)⟩
      rw [startsExpression_iff, hfirst]
      exact Bool.false_ne_true
    | some e =>
      obtain ⟨ts, hts, he⟩ := h.expression.built hx
      obtain ⟨t, ts', rfl, -⟩ := h.first _ _ he
      obtain ⟨rfl, -, -⟩ := hts.cons_inv
      exact ⟨_, hread.append hts, .value hreturn (Bool.eq_false_iff.2 hnew) he⟩

/-! ### Choices -/

/-- What a case does is built as a block or as an expression. -/
theorem builds_caseOutput (h : NestedSound nested E B) :
    Builds (caseOutput nested) (OutputPhrase E B) := by
  intro r a r' hr
  unfold caseOutput at hr
  obtain ⟨x, r₁, hx, hk⟩ := bind_eq_ok.1 hr
  cases x with
  | some b =>
    obtain ⟨rfl, rfl⟩ := pure_eq_ok.1 hk
    obtain ⟨ts, hts, hb⟩ := h.block.built hx
    exact ⟨ts, hts, .block hb⟩
  | none =>
    obtain ⟨rfl, -⟩ := h.block.declined hx
    obtain ⟨e, r₂, he, hk⟩ := bind_eq_ok.1 hk
    obtain ⟨rfl, rfl⟩ := pure_eq_ok.1 hk
    obtain ⟨ts, hts, he⟩ := h.builds_requireExpression _ he
    exact ⟨ts, hts, .expression he⟩

/-- Whether a lexeme starts the test of a case. -/
def startsTest (lexeme : Lexeme) : Bool :=
  (relationOperator lexeme).isSome || startsExpression lexeme

/-- A test starts with a relation or as an expression does. -/
theorem caseTest_first (hE : FirstIn startsExpression E) : FirstIn startsTest (CaseTest E) := by
  intro ts a ha
  cases ha with
  | compared hl _ =>
    refine ⟨_, _, rfl, ?_⟩
    rw [startsTest, relationOperator_eq_some.2 hl]
    rfl
  | plain he =>
    obtain ⟨t, ts', rfl, hf⟩ := hE _ _ he
    exact ⟨t, ts', rfl, by rw [startsTest, hf, Bool.or_true]⟩

/-- A test is built, or the rule declines at what starts none. -/
theorem caseTest_sound (h : NestedSound nested E B) :
    RuleSound (caseTest nested) (CaseTest E) startsTest where
  built := by
    intro r a r' hr
    unfold caseTest at hr
    rw [lexeme_bind] at hr
    generalize hop : relationOperator r.current.lexeme = found at hr
    cases found with
    | some op =>
      have hl := relationOperator_eq_some.1 hop
      obtain ⟨u, r₁, hadv, hk⟩ := bind_eq_ok.1 hr
      obtain ⟨e, r₂, he, hk⟩ := bind_eq_ok.1 hk
      obtain ⟨rfl, rfl⟩ := pure_some_inv hk
      obtain ⟨ts, hts, he⟩ := h.builds_requireExpression _ he
      exact ⟨_, (reads_of_advance (by simp [hl]) hadv).append hts, .compared hl he⟩
    | none =>
      obtain ⟨x, r₁, hx, hk⟩ := bind_eq_ok.1 hr
      cases x with
      | none => exact absurd hk pure_none_ne_some
      | some e =>
        obtain ⟨rfl, rfl⟩ := pure_some_inv hk
        obtain ⟨ts, hts, he⟩ := h.expression.built hx
        exact ⟨ts, hts, .plain he⟩
  declined := by
    intro r r' hr
    unfold caseTest at hr
    rw [lexeme_bind] at hr
    generalize hop : relationOperator r.current.lexeme = found at hr
    cases found with
    | some op => exact not_declined hr (.bind fun _ => .bind fun _ => .pure _)
    | none =>
      obtain ⟨x, r₁, hx, hk⟩ := bind_eq_ok.1 hr
      cases x with
      | some e => exact not_declined hk (.pure _)
      | none =>
        obtain ⟨rfl, hfirst⟩ := h.expression.declined hx
        obtain ⟨-, rfl⟩ := pure_eq_ok.1 hk
        exact ⟨rfl, by simp [startsTest, hop, hfirst]⟩

/-- Whether a lexeme starts a case. -/
def startsCase (lexeme : Lexeme) : Bool :=
  lexeme = .keyword .default || startsTest lexeme

/-- A case is built, or the rule declines at what starts none. -/
theorem switchCase_sound (h : NestedSound nested E B) :
    RuleSound (switchCase nested) (CasePhrase E B) startsCase where
  built := by
    intro r a r' hr
    unfold switchCase at hr
    rw [token_bind] at hr
    obtain ⟨b, r₁, hb, hk⟩ := bind_eq_ok.1 hr
    rcases acceptKeyword_inv hb with ⟨rfl, hl, hdefault⟩ | ⟨rfl, -, rfl⟩
    · obtain ⟨u, r₂, harrow, hk⟩ := bind_eq_ok.1 hk
      obtain ⟨output, r₃, hout, hk⟩ := bind_eq_ok.1 hk
      obtain ⟨rfl, rfl⟩ := pure_some_inv hk
      obtain ⟨ha, hmark⟩ := expect_inv harrow
      obtain ⟨ts, hts, hout⟩ := builds_caseOutput h hout
      exact ⟨_, hdefault.append (hmark.append hts), .fallback hl ha hout⟩
    · obtain ⟨x, r₂, hx, hk⟩ := bind_eq_ok.1 hk
      cases x with
      | none => exact absurd hk pure_none_ne_some
      | some tested =>
        obtain ⟨relation, e⟩ := tested
        obtain ⟨u, r₃, harrow, hk⟩ := bind_eq_ok.1 hk
        obtain ⟨output, r₄, hout, hk⟩ := bind_eq_ok.1 hk
        obtain ⟨rfl, rfl⟩ := pure_some_inv hk
        obtain ⟨ts, hts, htest⟩ := (caseTest_sound h).built hx
        -- the case stands where its test begins, which is the token that was seen first
        obtain ⟨t, ts₁, rfl, -⟩ := caseTest_first h.first _ _ htest
        obtain ⟨rfl, -, -⟩ := hts.cons_inv
        obtain ⟨ha, hmark⟩ := expect_inv harrow
        obtain ⟨ts', hts', hout⟩ := builds_caseOutput h hout
        exact ⟨_, hts.append (hmark.append hts'), .test htest ha hout⟩
  declined := by
    intro r r' hr
    unfold switchCase at hr
    rw [token_bind] at hr
    obtain ⟨b, r₁, hb, hk⟩ := bind_eq_ok.1 hr
    rcases acceptKeyword_inv hb with ⟨rfl, -, -⟩ | ⟨rfl, hl, rfl⟩
    · exact not_declined hk (.bind fun _ => .bind fun _ => .pure _)
    · obtain ⟨x, r₂, hx, hx'⟩ := bind_eq_ok.1 hk
      cases x with
      | some tested => exact not_declined hx' (.bind fun _ => .bind fun _ => .pure _)
      | none =>
        obtain ⟨rfl, hfirst⟩ := (caseTest_sound h).declined hx
        obtain ⟨-, rfl⟩ := pure_eq_ok.1 hx'
        exact ⟨rfl, by simp [startsCase, hl, hfirst]⟩

/-- The head of a choice is built as its guards or its subject. -/
theorem builds_choiceHead (h : NestedSound nested E B) :
    Builds (choiceHead nested) (ChoiceHead E) := by
  intro r a r' hr
  unfold choiceHead at hr
  obtain ⟨x, r₁, hx, hx'⟩ := bind_eq_ok.1 hr
  cases x with
  | some d =>
    obtain ⟨ds, r₂, hds, hk⟩ := bind_eq_ok.1 hx'
    obtain ⟨rfl, rfl⟩ := pure_eq_ok.1 hk
    obtain ⟨ts, hts, hd⟩ := (declaration_sound h).built hx
    obtain ⟨ts', hts', hds⟩ := builds_moreAfterCommas ((declaration_sound h).builds_require _) hds
    exact ⟨_, hts.append hts', .guards hd hds⟩
  | none =>
    obtain ⟨rfl, -⟩ := (declaration_sound h).declined hx
    obtain ⟨y, r₂, hy, hk⟩ := bind_eq_ok.1 hx'
    obtain ⟨rfl, rfl⟩ := pure_eq_ok.1 hk
    cases y with
    | some e =>
      obtain ⟨ts, hts, he⟩ := h.expression.built hy
      exact ⟨ts, hts, .subject he⟩
    | none =>
      obtain ⟨rfl, -⟩ := h.expression.declined hy
      exact ⟨[], .nil, .bare⟩

/-- The cases of a choice are built with their braces. -/
theorem builds_choiceCases (h : NestedSound nested E B) :
    Builds (choiceCases nested) (CaseList E B) := by
  intro r a r' hr
  unfold choiceCases at hr
  obtain ⟨u, r₁, hopen, hk⟩ := bind_eq_ok.1 hr
  obtain ⟨c, r₂, hc, hk⟩ := bind_eq_ok.1 hk
  obtain ⟨cs, r₃, hcs, hk⟩ := bind_eq_ok.1 hk
  obtain ⟨u', r₄, hclose, hk⟩ := bind_eq_ok.1 hk
  obtain ⟨rfl, rfl⟩ := pure_eq_ok.1 hk
  obtain ⟨hl, hleft⟩ := expect_inv hopen
  obtain ⟨ts, hts, hc⟩ := (switchCase_sound h).builds_require _ hc
  obtain ⟨ts', hts', hcs⟩ := builds_moreAfterCommas ((switchCase_sound h).builds_require _) hcs
  obtain ⟨hr, hright⟩ := expect_inv hclose
  exact ⟨_, ((hleft.append hts).append hts').append hright, .intro hl hc hcs hr⟩

/-- Behind `switch`, a choice is built. -/
theorem choice_sound (h : NestedSound nested E B) {start r r' : Reader} {s : Statement}
    (hswitch : start.current.lexeme = .keyword .switch) (hread : Reads start [start.current] r)
    (hr : choice nested start.current.position r = .ok (s, r')) :
    ∃ ts, Reads start ts r' ∧ StatementPhrase E B r'.current ts s := by
  unfold choice at hr
  obtain ⟨⟨guards, subject⟩, r₁, hhead, hk⟩ := bind_eq_ok.1 hr
  obtain ⟨cs, r₂, hcs, hk⟩ := bind_eq_ok.1 hk
  obtain ⟨rfl, rfl⟩ := pure_eq_ok.1 hk
  obtain ⟨ts, hts, hhead⟩ := builds_choiceHead h hhead
  obtain ⟨ts', hts', hcs⟩ := builds_choiceCases h hcs
  exact ⟨_, (hread.append hts).append hts', .choice hswitch hhead hcs⟩

/-! ### Blocks -/

/-- Whether a lexeme starts a statement. -/
def startsStatement : Lexeme → Bool
  | .typeName _ | .identifier _ => true
  | .keyword .if | .keyword .while | .keyword .switch | .keyword .return => true
  | _ => false

/-- A statement is built in front of the token where the reader stops. -/
theorem statement_built (h : NestedSound nested E B) {r r' : Reader} {s : Statement}
    (hr : statement nested r = .ok (some s, r')) :
    ∃ ts, Reads r ts r' ∧ StatementPhrase E B r'.current ts s := by
  unfold statement at hr
  rw [token_bind] at hr
  generalize hl : r.current.token.lexeme = l at hr
  -- every statement but a declaration consumes its first token before its own rule goes on
  have consumed : ∀ {x : Parse Statement}, l ≠ .endOfInput →
      (advance >>= fun _ => x >>= fun s => pure (some s)) r = .ok (some s, r') →
      ∃ r₁, Reads r [r.current] r₁ ∧ x r₁ = .ok (s, r') := by
    intro x hne hr
    obtain ⟨u, r₁, hadv, hk⟩ := bind_eq_ok.1 hr
    obtain ⟨s', r₂, hs, hk⟩ := bind_eq_ok.1 hk
    obtain ⟨rfl, rfl⟩ := pure_some_inv hk
    exact ⟨r₁, reads_of_advance (by rw [Lookahead.lexeme, hl]; exact hne) hadv, hs⟩
  split at hr
  · obtain ⟨x, r₁, hx, hk⟩ := bind_eq_ok.1 hr
    cases x with
    | none => exact absurd hk pure_none_ne_some
    | some d =>
      obtain ⟨rfl, rfl⟩ := pure_some_inv hk
      obtain ⟨ts, hts, hd⟩ := (declaration_sound h).built hx
      exact ⟨ts, hts, .declaration hd⟩
  · obtain ⟨r₁, hread, hs⟩ := consumed (by simp) hr
    exact assignmentOrCall_sound h hl hread hs
  · obtain ⟨r₁, hread, hs⟩ := consumed (by simp) hr
    exact conditional_sound h hl hread hs
  · obtain ⟨r₁, hread, hs⟩ := consumed (by simp) hr
    exact loop_sound h hl hread hs
  · obtain ⟨r₁, hread, hs⟩ := consumed (by simp) hr
    exact choice_sound h hl hread hs
  · obtain ⟨r₁, hread, hs⟩ := consumed (by simp) hr
    exact giveBack_sound h hl hread hs
  · exact absurd hr pure_none_ne_some

/-- The token under a reader is the first one that it reads. -/
theorem Reads.current_eq_headD {r r' : Reader} {ts : List Lookahead} {last : Lookahead}
    (h : Reads r (ts ++ [last]) r') : r.current = ts.headD last := by
  cases ts with
  | nil => exact h.cons_inv.1
  | cons t ts => exact h.cons_inv.1

/-- Statements are built up to their closing brace, by induction on their bound. -/
theorem statements_sound (h : NestedSound nested E B) :
    ∀ (fuel : Nat) {r r' : Reader} {ss : List Statement},
      statements nested fuel r = .ok (ss, r') →
      ∃ ts right, Reads r (ts ++ [right]) r' ∧ right.lexeme = .punctuation .rightBrace ∧
        StatementList E B right ts ss := by
  intro fuel
  induction fuel with
  | zero =>
    intro r r' ss hr
    -- without fuel the loop fails, so what it has built was built with enough of it
    exact absurd hr fail_ne_ok
  | succ fuel ih =>
    intro r r' ss hr
    unfold statements at hr
    obtain ⟨b, r₁, hb, hk⟩ := bind_eq_ok.1 hr
    rcases accept_inv hb with ⟨rfl, hl, hclose⟩ | ⟨rfl, -, rfl⟩
    · obtain ⟨rfl, rfl⟩ := pure_eq_ok.1 hk
      exact ⟨[], r.current, hclose, hl, .nil⟩
    · simp only [Bool.false_eq_true, if_false, lexeme_bind] at hk
      split at hk
      · exact absurd hk fail_ne_ok
      · obtain ⟨x, r₂, hx, hk⟩ := bind_eq_ok.1 hk
        cases x with
        | none =>
          simp only [lexeme_bind] at hk
          obtain ⟨found, r₃, -, hk⟩ := bind_eq_ok.1 hk
          exact absurd hk fail_ne_ok
        | some s =>
          obtain ⟨ss', r₃, hss, hk⟩ := bind_eq_ok.1 hk
          obtain ⟨rfl, rfl⟩ := pure_eq_ok.1 hk
          obtain ⟨ts, hts, hs⟩ := statement_built h hx
          obtain ⟨ts', right, hts', hl, hss⟩ := ih hss
          -- the statement was read in front of the current token, which is the first of the others
          -- or the brace
          rw [hts'.current_eq_headD] at hs
          refine ⟨ts ++ ts', right, ?_, hl, .cons hs hss⟩
          rw [List.append_assoc]
          exact hts.append hts'

/-- A block is built, or the rule declines where there is no brace. -/
theorem blockOf_sound (h : NestedSound nested E B) :
    RuleSound (blockOf nested) (Braced E B) (isMark .leftBrace) where
  built := by
    intro r a r' hr
    unfold blockOf at hr
    rw [token_bind] at hr
    obtain ⟨b, r₁, hb, hk⟩ := bind_eq_ok.1 hr
    rcases accept_inv hb with ⟨rfl, hl, hleft⟩ | ⟨rfl, -, -⟩
    · simp only [if_true, budget_bind] at hk
      obtain ⟨ss, r₂, hss, hk⟩ := bind_eq_ok.1 hk
      obtain ⟨rfl, rfl⟩ := pure_some_inv hk
      obtain ⟨ts, right, hts, hright, hss⟩ := statements_sound h _ hss
      refine ⟨_, ?_, .intro hl hss hright⟩
      rw [List.cons_append]
      exact hleft.append hts
    · exact absurd hk pure_none_ne_some
  declined := by
    intro r r' hr
    unfold blockOf at hr
    rw [token_bind] at hr
    obtain ⟨b, r₁, hb, hk⟩ := bind_eq_ok.1 hr
    rcases accept_inv hb with ⟨rfl, -, -⟩ | ⟨rfl, hl, rfl⟩
    · exact not_declined hk (.bind fun _ => .bind fun _ => .pure _)
    · obtain ⟨-, rfl⟩ := pure_eq_ok.1 hk
      exact ⟨rfl, decide_eq_false hl⟩

end

/-- Blocks are built only as phrases of their depth, or of a greater one. -/
theorem block_sound_of_le {depth n : Nat} (h : depth ≤ n) :
    RuleSound (Parser.block depth) (BlockPhrase n) (isMark .leftBrace) := by
  induction depth generalizing n with
  | zero =>
    constructor
    · intro r a r' hr
      unfold Parser.block at hr
      rw [lexeme_bind] at hr
      split at hr
      · exact absurd hr fail_ne_ok
      · exact absurd hr pure_none_ne_some
    · intro r r' hr
      unfold Parser.block at hr
      rw [lexeme_bind] at hr
      split at hr
      · exact absurd hr fail_ne_ok
      · next hl =>
        obtain ⟨-, rfl⟩ := pure_eq_ok.1 hr
        exact ⟨rfl, decide_eq_false hl⟩
  | succ depth ih =>
    obtain ⟨n, rfl⟩ := Nat.exists_eq_succ_of_ne_zero (Nat.ne_zero_of_lt h)
    have hle := Nat.le_of_succ_le_succ h
    exact blockOf_sound ⟨expression_sound_of_le hle, expression_first n, ih hle⟩

/-- **What is built for a block is derived from the tokens that were read**, at every depth. -/
theorem block_sound (depth : Nat) :
    RuleSound (Parser.block depth) (BlockPhrase depth) (isMark .leftBrace) :=
  block_sound_of_le (Nat.le_refl depth)

/-! ## Functions and programs -/

/-- Whether a lexeme is a name. -/
def isName : Lexeme → Bool
  | .identifier _ => true
  | _ => false

theorem isName_eq_false {l : Lexeme} (h : ∀ name, l ≠ .identifier name) : isName l = false := by
  unfold isName
  split
  · exact absurd rfl (h _)
  · rfl

/-- Parameters that share a type are built, or the rule declines where there is no name. -/
theorem parameterGroup_sound : RuleSound parameterGroup ParameterGroup isName where
  built := by
    intro r a r' hr
    unfold parameterGroup at hr
    rw [token_bind] at hr
    generalize hl : r.current.token.lexeme = l at hr
    split at hr
    · obtain ⟨u, r₁, hadv, hk⟩ := bind_eq_ok.1 hr
      obtain ⟨names, r₂, hnames, hk⟩ := bind_eq_ok.1 hk
      obtain ⟨type, r₃, htype, hk⟩ := bind_eq_ok.1 hk
      obtain ⟨rfl, rfl⟩ := pure_some_inv hk
      have hread := reads_of_advance (by simp [hl]) hadv
      obtain ⟨ts, hts, hnames⟩ := builds_moreAfterCommas builds_expectIdentifier hnames
      obtain ⟨ts', hts', htype⟩ := typeAnnotation_sound.builds_require _ htype
      exact ⟨_, (hread.append hts).append hts', .intro (.intro hl) hnames htype⟩
    · exact absurd hr pure_none_ne_some
  declined := by
    intro r r' hr
    unfold parameterGroup at hr
    rw [token_bind] at hr
    generalize hl : r.current.token.lexeme = l at hr
    split at hr
    · exact not_declined hr (.bind fun _ => .bind fun _ => .bind fun _ => .pure _)
    · next hne =>
      obtain ⟨-, rfl⟩ := pure_eq_ok.1 hr
      exact ⟨rfl, isName_eq_false (by rw [Lookahead.lexeme, hl]; exact hne)⟩

/-- The parameters of a function are built group by group. -/
theorem builds_parameters : Builds parameters ParameterList := by
  intro r a r' hr
  unfold parameters at hr
  obtain ⟨x, r₁, hx, hk⟩ := bind_eq_ok.1 hr
  cases x with
  | none =>
    obtain ⟨rfl, -⟩ := parameterGroup_sound.declined hx
    obtain ⟨rfl, rfl⟩ := pure_eq_ok.1 hk
    exact ⟨[], .nil, .none⟩
  | some group =>
    obtain ⟨groups, r₂, hgroups, hk⟩ := bind_eq_ok.1 hk
    obtain ⟨rfl, rfl⟩ := pure_eq_ok.1 hk
    obtain ⟨ts, hts, hgroup⟩ := parameterGroup_sound.built hx
    obtain ⟨ts', hts', hgroups⟩ :=
      builds_moreAfterCommas (parameterGroup_sound.builds_require _) hgroups
    exact ⟨_, hts.append hts', .some hgroup hgroups⟩

/-- An optional type name gives the type that a function returns. -/
theorem returnType_sound {r r' : Reader} {x : Option BasicType}
    (hr : typeAnnotation r = .ok (x, r')) :
    ∃ ts, Reads r ts r' ∧ ReturnType ts ((x.map ValueType.basic).getD .void) := by
  cases x with
  | none =>
    obtain ⟨rfl, -⟩ := typeAnnotation_sound.declined hr
    exact ⟨[], .nil, .none⟩
  | some type =>
    obtain ⟨ts, hts, htype⟩ := typeAnnotation_sound.built hr
    exact ⟨ts, hts, .some htype⟩

section
variable {nested : Nested} {B : Phrase Block}

/-- A function is built, or the rule declines where there is no name. -/
theorem functionOf_sound (h : RuleSound nested.block B (isMark .leftBrace)) :
    RuleSound (functionOf nested) (FunctionPhrase B) isName where
  built := by
    intro r a r' hr
    unfold functionOf at hr
    rw [token_bind] at hr
    generalize hl : r.current.token.lexeme = l at hr
    split at hr
    · obtain ⟨u, r₁, hadv, hk⟩ := bind_eq_ok.1 hr
      obtain ⟨u₁, r₂, hopen, hk⟩ := bind_eq_ok.1 hk
      obtain ⟨ps, r₃, hps, hk⟩ := bind_eq_ok.1 hk
      obtain ⟨u₂, r₄, hclose, hk⟩ := bind_eq_ok.1 hk
      obtain ⟨x, r₅, hx, hk⟩ := bind_eq_ok.1 hk
      obtain ⟨body, r₆, hbody, hk⟩ := bind_eq_ok.1 hk
      obtain ⟨rfl, rfl⟩ := pure_some_inv hk
      have hname := reads_of_advance (by simp [hl]) hadv
      obtain ⟨hl₁, hleft⟩ := expect_inv hopen
      obtain ⟨ts, hts, hps⟩ := builds_parameters hps
      obtain ⟨hl₂, hright⟩ := expect_inv hclose
      obtain ⟨ts', hts', htype⟩ := returnType_sound hx
      obtain ⟨ts'', hts'', hbody⟩ := h.builds_require _ hbody
      exact ⟨_, (((hname.append hleft).append hts).append (hright.append hts')).append hts'',
        .intro hl hl₁ hps hl₂ htype hbody⟩
    · exact absurd hr pure_none_ne_some
  declined := by
    intro r r' hr
    unfold functionOf at hr
    rw [token_bind] at hr
    generalize hl : r.current.token.lexeme = l at hr
    split at hr
    · exact not_declined hr (.bind fun _ => .bind fun _ => .bind fun _ => .bind fun _ =>
        .bind fun _ => .bind fun _ => .pure _)
    · next hne =>
      obtain ⟨-, rfl⟩ := pure_eq_ok.1 hr
      exact ⟨rfl, isName_eq_false (by rw [Lookahead.lexeme, hl]; exact hne)⟩

/-- The loop over functions adds functions of new names to those already defined. -/
theorem functions_sound (h : RuleSound nested.block B (isMark .leftBrace)) :
    ∀ (fuel : Nat) {defined found : Program} {r r' : Reader},
      (defined.functions.map Function.name).Nodup →
      functions nested fuel defined r = .ok (found, r') →
      ∃ ts fs, Reads r ts r' ∧ FunctionList B ts fs ∧ found.functions = defined.functions ++ fs ∧
        (found.functions.map Function.name).Nodup := by
  intro fuel
  induction fuel with
  | zero =>
    intro defined found r r' hnodup hr
    obtain ⟨rfl, rfl⟩ := pure_eq_ok.1 hr
    exact ⟨[], [], .nil, .nil, by simp, hnodup⟩
  | succ fuel ih =>
    intro defined found r r' hnodup hr
    unfold functions at hr
    obtain ⟨x, r₁, hx, hk⟩ := bind_eq_ok.1 hr
    cases x with
    | none =>
      obtain ⟨rfl, -⟩ := (functionOf_sound h).declined hx
      obtain ⟨rfl, rfl⟩ := pure_eq_ok.1 hk
      exact ⟨[], [], .nil, .nil, by simp, hnodup⟩
    | some f =>
      obtain ⟨ts, hts, hf⟩ := (functionOf_sound h).built hx
      dsimp only at hk
      generalize hnew : defined.find? f.name = earlier at hk
      cases earlier with
      | some g => exact absurd hk failAt_ne_ok
      | none =>
        -- the name is new, or the loop would have stopped at it
        have hnodup' : ((defined.functions ++ [f]).map Function.name).Nodup := by
          rw [List.map_append, List.map_singleton, List.nodup_append]
          refine ⟨hnodup, List.nodup_singleton _, ?_⟩
          intro name hname name' hname'
          obtain ⟨g, hg, rfl⟩ := List.mem_map.1 hname
          obtain rfl := List.mem_singleton.1 hname'
          have hne := List.find?_eq_none.1 hnew g hg
          simpa using hne
        obtain ⟨ts', fs, hts', hfs, hfound, hfinal⟩ := ih hnodup' hk
        refine ⟨_, f :: fs, hts.append hts', .cons hf hfs, ?_, hfinal⟩
        rw [hfound, List.append_assoc, List.singleton_append]

/-- A program is built from all tokens up to the end of the input. -/
theorem programOf_sound (h : RuleSound nested.block B (isMark .leftBrace)) {r r' : Reader}
    {found : Program} (hr : programOf nested r = .ok (found, r')) :
    ∃ ts, Reads r ts r' ∧ r'.current.lexeme = .endOfInput ∧ FunctionList B ts found.functions ∧
      (found.functions.map Function.name).Nodup := by
  unfold programOf at hr
  rw [budget_bind] at hr
  obtain ⟨p, r₁, hp, hk⟩ := bind_eq_ok.1 hr
  rw [lexeme_bind] at hk
  split at hk
  · next hl =>
    obtain ⟨rfl, rfl⟩ := pure_eq_ok.1 hk
    obtain ⟨ts, fs, hts, hfs, hfound, hnodup⟩ := functions_sound h _ (by simp) hp
    rw [List.nil_append] at hfound
    exact ⟨ts, hts, hl, hfound ▸ hfs, hnodup⟩
  · obtain ⟨text, r₂, -, hk⟩ := bind_eq_ok.1 hk
    exact absurd hk fail_ne_ok

end

end FLang
