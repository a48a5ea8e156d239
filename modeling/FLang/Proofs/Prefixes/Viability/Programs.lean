import FLang.Proofs.Prefixes.Viability.Expressions

/-!
# What is read of a program can be completed

Where an error of the lexer cuts the reading of a statement, a block or a program short, the tokens
in front of it begin one of those.
-/

namespace FLang

open Grammar Parse FLang.Parser

/-! ## Statements -/

/-- Rules for what a statement contains that can be completed. -/
structure NestedCompletes (nested : Nested) (E : Phrase Expression) (B : Phrase Block) : Prop where
  sound : NestedSound nested E B
  scans : NestedScans nested
  expression : Completes nested.expression E
  block : Completes nested.block B
  spareExpression : ∃ e, E [spareConstant] e
  spareBlock : ∃ b, B [spareMark .leftBrace, spareMark .rightBrace] b

section
variable {nested : Nested} {E : Phrase Expression} {B : Phrase Block} {r : Reader}

theorem NestedCompletes.expressions (h : NestedCompletes nested E B) :
    ExpressionCompletes nested.expression E :=
  ⟨h.sound.expression, h.scans.expression, h.expression, h.spareExpression⟩

/-- Where an expression has to be there, it can be completed, and one can also be put there. -/
theorem NestedCompletes.requireExpression (h : NestedCompletes nested E B) (after : String) :
    Completes (nested.requireExpression after) E :=
  h.expressions.require _

/-- Where a block has to be there, it can be completed, and one can also be put there. -/
theorem NestedCompletes.requireBlock (h : NestedCompletes nested E B) :
    Completes nested.requireBlock B :=
  h.block.require h.scans.block _

/-- A declaration that breaks off is completed by the tokens that it still expects. -/
theorem declaration_completes (h : NestedCompletes nested E B) :
    Completes (declaration nested) (DeclarationPhrase E) := by
  intro r hr
  have hname : Name [spareName] (Position.start, "x") := .intro rfl
  have hdeclare : (spareMark .declare).lexeme = .punctuation .declare := rfl
  obtain ⟨spare, hspare⟩ := h.spareExpression
  rcases hr.bind (typeAnnotation_scans r) with hr | ⟨found, r₁, hfound, hr, htokens⟩
  · obtain ⟨ts, type, htype, more, rfl⟩ := typeAnnotation_completes hr
    exact .of (.intro htype hname hdeclare hspare) (by simp)
  · cases found with
    | none => exact absurd hr BreaksOff.not_pure
    | some type =>
      obtain ⟨ts, hts, htype⟩ := typeAnnotation_sound.built hfound
      rw [htokens hts]
      rcases hr.bind (expectIdentifier_scans _ r₁) with hr | ⟨⟨position, id⟩, r₂, hid, hr, htokens⟩
      · obtain ⟨ts', ⟨position, id⟩, hname, more, rfl⟩ := expectIdentifier_completes hr
        exact .of (.intro htype hname hdeclare hspare) (by simp)
      · obtain ⟨ts', hts', hname⟩ := builds_expectIdentifier hid
        rw [htokens hts']
        rcases hr.bind (expect_scans _ _ r₂) with hr | ⟨u, r₃, hmark, hr, htokens⟩
        · obtain ⟨hdeclare, hlast⟩ := hr.expect
          exact .of (.intro htype hname hdeclare hspare) (by simp [hlast])
        · obtain ⟨hdeclare, hmark⟩ := expect_inv hmark
          obtain ⟨ts'', e, he, more, rfl⟩ := h.requireExpression _ hr.of_pure
          rw [htokens hmark]
          exact .of (.intro htype hname hdeclare he) (by simp)

/-! ### What follows the first token of a statement -/

section
variable {t next : Lookahead}

/-- Behind a name, what breaks off is completed to an assignment or a call. -/
theorem assignmentOrCall_completes (h : NestedCompletes nested E B) {id : String}
    (ht : t.lexeme = .identifier id) {position : Position}
    (hbreaks : BreaksOff (assignmentOrCall nested position id) r) :
    Begins (StatementPhrase E B next) (t :: r.tokens) := by
  rcases hbreaks.bind (callArguments_scans h.scans.expression id r) with
    hr | ⟨found, r₁, hfound, hr, -⟩
  · obtain ⟨ts, es, hes, more, rfl⟩ := callArguments_completes h.expressions id hr
    exact .of (.call ht hes) (by simp)
  · cases found with
    | some es =>
      have hr := hr.lexeme
      split at hr
      · exact absurd hr BreaksOff.not_fail
      · exact absurd hr BreaksOff.not_pure
    | none =>
      obtain ⟨rfl, -⟩ := (callArguments_sound h.sound.expression id).declined hfound
      rcases hr.bind (accept_scans _ r₁) with hr | ⟨b, r₂, hassign, hr, htokens⟩
      · obtain ⟨hassign, hlast⟩ := hr.accept
        obtain ⟨e, he⟩ := h.spareExpression
        exact .of (.assignment ht hassign he) (by simp [hlast])
      · rcases accept_inv hassign with ⟨rfl, hl, hassign⟩ | ⟨rfl, -, -⟩
        · obtain ⟨ts, e, he, more, rfl⟩ := h.requireExpression _ hr.of_pure
          rw [htokens hassign]
          exact .of (.assignment ht hl he) (by simp)
        · exact absurd hr BreaksOff.not_fail

/-- A condition that breaks off lacks its test, its block or the block for the other case. -/
theorem conditional_completes (h : NestedCompletes nested E B) (ht : t.lexeme = .keyword .if)
    {position : Position} (hr : BreaksOff (conditional nested position) r) :
    Begins (StatementPhrase E B next) (t :: r.tokens) := by
  obtain ⟨b, hb⟩ := h.spareBlock
  rcases hr.bind (h.scans.requireExpression _ r) with hr | ⟨e, r₁, he, hr, htokens⟩
  · obtain ⟨ts, e, he, more, rfl⟩ := h.requireExpression _ hr
    exact .of (.conditional ht he hb) (by simp)
  · obtain ⟨ts, hts, he⟩ := h.sound.builds_requireExpression _ he
    rw [htokens hts]
    rcases hr.bind (h.scans.requireBlock r₁) with hr | ⟨b, r₂, hb, hr, htokens⟩
    · obtain ⟨ts', b, hb, more, rfl⟩ := h.requireBlock hr
      exact .of (.conditional ht he hb) (by simp)
    · obtain ⟨ts', hts', hthen⟩ := h.sound.builds_requireBlock hb
      rw [htokens hts']
      rcases hr.bind (acceptKeyword_scans _ r₂) with hr | ⟨c, r₃, helse, hr, htokens⟩
      · obtain ⟨hl, hlast⟩ := hr.acceptKeyword
        obtain ⟨b, hb⟩ := h.spareBlock
        exact .of (.alternative ht he hthen hl hb) (by simp [hlast])
      · rcases acceptKeyword_inv helse with ⟨rfl, hl, helse⟩ | ⟨rfl, -, -⟩
        · obtain ⟨ts'', b, hb, more, rfl⟩ := h.requireBlock hr.of_pure
          rw [htokens helse]
          exact .of (.alternative ht he hthen hl hb) (by simp)
        · exact absurd hr BreaksOff.not_pure

/-- A loop that breaks off lacks its test or its body. -/
theorem loop_completes (h : NestedCompletes nested E B) (ht : t.lexeme = .keyword .while)
    {position : Position} (hr : BreaksOff (loop nested position) r) :
    Begins (StatementPhrase E B next) (t :: r.tokens) := by
  obtain ⟨b, hb⟩ := h.spareBlock
  rcases hr.bind (h.scans.requireExpression _ r) with hr | ⟨e, r₁, he, hr, htokens⟩
  · obtain ⟨ts, e, he, more, rfl⟩ := h.requireExpression _ hr
    exact .of (.loop ht he hb) (by simp)
  · obtain ⟨ts, hts, he⟩ := h.sound.builds_requireExpression _ he
    obtain ⟨ts', b, hb, more, rfl⟩ := h.requireBlock hr.of_pure
    rw [htokens hts]
    exact .of (.loop ht he hb) (by simp)

/-- Behind `return` a value may follow, and what breaks off in it can be completed. -/
theorem giveBack_completes (h : NestedCompletes nested E B) (ht : t.lexeme = .keyword .return)
    {position : Position} (hr : BreaksOff (Parser.giveBack nested position) r) :
    Begins (StatementPhrase E B next) (t :: r.tokens) := by
  have hr := hr.newlineBefore
  split at hr
  · exact absurd hr BreaksOff.not_pure
  · next hline =>
    obtain ⟨ts, e, he, more, rfl⟩ := h.expression hr.of_pure
    exact .of (.value ht (Bool.eq_false_iff.2 hline) he) (by simp [Reader.tokens])

/-- What a case does is completed as a block or as an expression. -/
theorem caseOutput_completes (h : NestedCompletes nested E B) :
    Completes (caseOutput nested) (OutputPhrase E B) := by
  intro r hbreaks
  rcases hbreaks.bind (h.scans.block r) with hr | ⟨found, r₁, hfound, hr, -⟩
  · obtain ⟨ts, b, hb, hts⟩ := h.block hr
    exact .of (.block hb) hts
  · cases found with
    | some b => exact absurd hr BreaksOff.not_pure
    | none =>
      obtain ⟨rfl, -⟩ := h.sound.block.declined hfound
      obtain ⟨ts, e, he, hts⟩ := h.requireExpression _ hr.of_pure
      exact .of (.expression he) hts

/-- A test is completed as the expression in it. -/
theorem caseTest_completes (h : NestedCompletes nested E B) :
    Completes (caseTest nested) (CaseTest E) := by
  intro r hr
  have hr := hr.lexeme
  generalize hop : relationOperator r.current.lexeme = found at hr
  cases found with
  | some op =>
    have hl := relationOperator_eq_some.1 hop
    have hne : r.current.lexeme ≠ .endOfInput := by simp [hl]
    rcases hr.bind (.advance hne) with hr | ⟨u, r₁, hadv, hr, htokens⟩
    · obtain ⟨e, he⟩ := h.spareExpression
      exact .of (.compared hl he) (by simp [hr.advance])
    · obtain ⟨ts, e, he, more, rfl⟩ := h.requireExpression _ hr.of_pure
      rw [htokens (reads_of_advance hne hadv)]
      exact .of (.compared hl he) (by simp)
  | none =>
    obtain ⟨ts, e, he, hts⟩ := h.expression hr.of_pure
    exact .of (.plain he) hts

/-- A case that breaks off lacks its test, its arrow or what it does. -/
theorem switchCase_completes (h : NestedCompletes nested E B) :
    Completes (switchCase nested) (CasePhrase E B) := by
  intro r hr
  have harrow : (spareMark .arrow).lexeme = .punctuation .arrow := rfl
  obtain ⟨e, he⟩ := h.spareExpression
  have hspare : OutputPhrase E B [spareConstant] (.expression e) := .expression he
  have hr := hr.token
  -- at each part, the tokens end in it, and all that comes behind is filled in, or it was read and
  -- they end later
  rcases hr.bind (acceptKeyword_scans _ r) with hr | ⟨b, r₁, hdefault, hr, htokens⟩
  · obtain ⟨hl, hlast⟩ := hr.acceptKeyword
    exact .of (.fallback hl harrow hspare) (by simp [hlast])
  · rcases acceptKeyword_inv hdefault with ⟨rfl, hl, hdefault⟩ | ⟨rfl, -, rfl⟩
    · rw [htokens hdefault]
      rcases hr.bind (expect_scans _ _ r₁) with hr | ⟨u, r₂, hmark, hr, htokens⟩
      · obtain ⟨harrow, hlast⟩ := hr.expect
        exact .of (.fallback hl harrow hspare) (by simp [hlast])
      · obtain ⟨harrow, hmark⟩ := expect_inv hmark
        obtain ⟨ts, output, houtput, more, rfl⟩ := caseOutput_completes h hr.of_pure
        rw [htokens hmark]
        exact .of (.fallback hl harrow houtput) (by simp)
    · rcases hr.bind (caseTest_scans h.scans r₁) with hr | ⟨found, r₂, hfound, hr, htokens⟩
      · obtain ⟨ts, ⟨relation, e⟩, htest, hts⟩ := caseTest_completes h hr
        obtain ⟨t, ts, rfl, -⟩ := caseTest_first h.sound.first _ _ htest
        exact .of (.test htest harrow hspare) (hts.trans (List.prefix_append _ _))
      · cases found with
        | none => exact absurd hr BreaksOff.not_pure
        | some test =>
          obtain ⟨relation, e⟩ := test
          obtain ⟨ts, hts, htest⟩ := (caseTest_sound h.sound).built hfound
          rw [htokens hts]
          obtain ⟨t, ts, rfl, -⟩ := caseTest_first h.sound.first _ _ htest
          rcases hr.bind (expect_scans _ _ r₂) with hr | ⟨u, r₃, hmark, hr, htokens⟩
          · obtain ⟨harrow, hlast⟩ := hr.expect
            exact .of (.test htest harrow hspare) (by simp [hlast])
          · obtain ⟨harrow, hmark⟩ := expect_inv hmark
            obtain ⟨ts', output, houtput, more, rfl⟩ := caseOutput_completes h hr.of_pure
            rw [htokens hmark]
            exact .of (.test htest harrow houtput) (by simp)

/-- There is a declaration to complete a head with. -/
theorem NestedCompletes.spareDeclaration (h : NestedCompletes nested E B) :
    ∃ ts d, DeclarationPhrase E ts d := by
  obtain ⟨e, he⟩ := h.spareExpression
  have hname : Name [spareName] (Position.start, "x") := .intro rfl
  have hdeclare : (spareMark .declare).lexeme = .punctuation .declare := rfl
  exact ⟨_, _, .intro (.intro (t := spareType) rfl) hname hdeclare he⟩

/-- There is a case to complete a choice with. -/
theorem NestedCompletes.spareCase (h : NestedCompletes nested E B) :
    ∃ ts c, CasePhrase E B ts c := by
  obtain ⟨e, he⟩ := h.spareExpression
  have harrow : (spareMark .arrow).lexeme = .punctuation .arrow := rfl
  exact ⟨_, _, .test (.plain he) harrow (.expression he)⟩

/-- There are cases to complete a choice with. -/
theorem NestedCompletes.spareCases (h : NestedCompletes nested E B) :
    ∃ ts cs, CaseList E B ts cs := by
  obtain ⟨ts, c, hc⟩ := h.spareCase
  have hleft : (spareMark .leftBrace).lexeme = .punctuation .leftBrace := rfl
  have hright : (spareMark .rightBrace).lexeme = .punctuation .rightBrace := rfl
  exact ⟨_, _, .intro hleft hc .nil hright⟩

/-- The head of a choice is completed as guards or as a subject. -/
theorem choiceHead_completes (h : NestedCompletes nested E B) :
    Completes (choiceHead nested) (ChoiceHead E) := by
  intro r hbreaks
  rcases hbreaks.bind (declaration_scans h.scans r) with hr | ⟨found, r₁, hfound, hr, htokens⟩
  · obtain ⟨ts, d, hd, hts⟩ := declaration_completes h hr
    exact .of (.guards hd .nil) (by simpa using hts)
  · cases found with
    | some d =>
      obtain ⟨ts, hts, hd⟩ := (declaration_sound h.sound).built hfound
      obtain ⟨ts', ds, hds, more, rfl⟩ := moreAfterCommas_completes
        ((declaration_completes h).require (declaration_scans h.scans) _)
        (require_scans (declaration_scans h.scans) _) ((declaration_sound h.sound).builds_require _)
        h.spareDeclaration hr.of_pure
      rw [htokens hts]
      exact .of (.guards hd hds) (by simp)
    | none =>
      obtain ⟨rfl, -⟩ := (declaration_sound h.sound).declined hfound
      obtain ⟨ts, e, he, hts⟩ := h.expression hr.of_pure
      exact .of (.subject he) hts

/-- Cases that break off are completed in the last of them, or by another one behind a comma. -/
theorem choiceCases_completes (h : NestedCompletes nested E B) :
    Completes (choiceCases nested) (CaseList E B) := by
  intro r hr
  have hcase := (switchCase_completes h).require (switchCase_scans h.scans)
  have hscans := require_scans (switchCase_scans h.scans)
  have hbuilds := (switchCase_sound h.sound).builds_require
  have hright : (spareMark .rightBrace).lexeme = .punctuation .rightBrace := rfl
  rcases hr.bind (expect_scans _ _ r) with hr | ⟨u, r₁, hopen, hr, htokens⟩
  · obtain ⟨hleft, hlast⟩ := hr.expect
    obtain ⟨ts, c, hc⟩ := h.spareCase
    exact .of (.intro hleft hc .nil hright) (by simp [hlast])
  · obtain ⟨hleft, hopen⟩ := expect_inv hopen
    rw [htokens hopen]
    rcases hr.bind (hscans _ r₁) with hr | ⟨c, r₂, hc, hr, htokens⟩
    · obtain ⟨ts, c, hc, more, rfl⟩ := hcase _ hr
      exact .of (.intro hleft hc .nil hright) (by simp)
    · obtain ⟨ts, hts, hc⟩ := hbuilds _ hc
      rw [htokens hts]
      rcases hr.bind (moreAfterCommas_scans (hscans _) r₂) with hr | ⟨cs, r₃, hcs, hr, htokens⟩
      · obtain ⟨ts', cs, hcs, more, rfl⟩ :=
          moreAfterCommas_completes (hcase _) (hscans _) (hbuilds _) h.spareCase hr
        exact .of (.intro hleft hc hcs hright) (by simp)
      · obtain ⟨ts', hts', hcs⟩ := builds_moreAfterCommas (hbuilds _) hcs
        obtain ⟨hclose, hlast⟩ := hr.of_pure.expect
        rw [htokens hts', hlast]
        exact .of (.intro hleft hc hcs hclose) (by simp)

/-- A choice that breaks off is completed in its head or in its cases, and then by its brace. -/
theorem choice_completes (h : NestedCompletes nested E B) (ht : t.lexeme = .keyword .switch)
    {position : Position} (hr : BreaksOff (choice nested position) r) :
    Begins (StatementPhrase E B next) (t :: r.tokens) := by
  rcases hr.bind (choiceHead_scans h.scans r) with hr | ⟨head, r₁, hhead, hr, htokens⟩
  · obtain ⟨ts, ⟨guards, subject⟩, hhead, more, rfl⟩ := choiceHead_completes h hr
    obtain ⟨ts', cs, hcs⟩ := h.spareCases
    exact .of (.choice ht hhead hcs) (by simp)
  · obtain ⟨guards, subject⟩ := head
    obtain ⟨ts, hts, hhead⟩ := builds_choiceHead h.sound hhead
    obtain ⟨ts', cs, hcs, more, rfl⟩ := choiceCases_completes h hr.of_pure
    rw [htokens hts]
    exact .of (.choice ht hhead hcs) (by simp)

/-- A statement of which there is one token can be completed, whatever stands behind it. -/
theorem statement_begins (h : NestedCompletes nested E B) (ht : startsStatement t.lexeme) :
    Begins (StatementPhrase E B next) [t] := by
  obtain ⟨e, he⟩ := h.spareExpression
  obtain ⟨b, hb⟩ := h.spareBlock
  unfold startsStatement at ht
  split at ht
  · next hl =>
    have hname : Name [spareName] (Position.start, "x") := .intro rfl
    have hdeclare : (spareMark .declare).lexeme = .punctuation .declare := rfl
    exact .of (.declaration (.intro (.intro hl) hname hdeclare he)) (by simp)
  · next hl =>
    have hassign : (spareMark .assign).lexeme = .punctuation .assign := rfl
    exact .of (.assignment hl hassign he) (by simp)
  · next hl => exact .of (.conditional hl he hb) (by simp)
  · next hl => exact .of (.loop hl he hb) (by simp)
  · next hl =>
    obtain ⟨ts, cs, hcs⟩ := h.spareCases
    exact .of (.choice hl .bare hcs) (by simp)
  · next hl => exact .of (.value hl rfl he) (by simp)
  · cases ht

end

/-- **A statement that breaks off can be completed**, whatever follows it. -/
theorem statement_completes (h : NestedCompletes nested E B) (next : Lookahead) :
    Completes (statement nested) (StatementPhrase E B next) := by
  intro r hr
  have hr := hr.token
  generalize hl : r.current.token.lexeme = l at hr
  -- every statement but a declaration consumes its first token before its own rule goes on
  have started : ∀ {rule : Parse Statement}, startsStatement l → l ≠ .endOfInput →
      (∀ {r₁}, BreaksOff rule r₁ →
        Begins (StatementPhrase E B next) (r.current :: r₁.tokens)) →
      BreaksOff (advance >>= fun _ => rule >>= fun s => pure (some s)) r →
      Begins (StatementPhrase E B next) r.tokens := by
    intro rule hstarts hne hrule hr
    rw [← hl] at hstarts hne
    rcases hr.bind (.advance hne) with hr | ⟨u, r₁, hadv, hr, htokens⟩
    · rw [hr.advance]
      exact statement_begins h hstarts
    · rw [htokens (reads_of_advance hne hadv)]
      exact hrule hr.of_pure
  split at hr
  · obtain ⟨ts, d, hd, hts⟩ := declaration_completes h hr.of_pure
    exact .of (.declaration hd) hts
  · exact started rfl (by simp) (assignmentOrCall_completes h hl) hr
  · exact started rfl (by simp) (conditional_completes h hl) hr
  · exact started rfl (by simp) (loop_completes h hl) hr
  · exact started rfl (by simp) (choice_completes h hl) hr
  · exact started rfl (by simp) (giveBack_completes h hl) hr
  · exact absurd hr BreaksOff.not_pure

/-! ### Blocks -/

/-- The first of some tokens that begin others. -/
theorem headD_of_prefix {t last : Lookahead} {ts ts' : List Lookahead}
    (h : t :: ts <+: ts' ++ [last]) : ts'.headD last = t := by
  obtain ⟨more, hmore⟩ := h
  cases ts' with
  | nil => exact (List.cons.inj hmore).1.symm
  | cons t' ts' => exact (List.cons.inj hmore).1.symm

/-- Statements that break off are completed in the last of them, and then by the closing brace. -/
theorem statements_complete (h : NestedCompletes nested E B) :
    ∀ (fuel : Nat) {r : Reader}, BreaksOff (statements nested fuel) r →
      ∃ ts right ss, right.lexeme = .punctuation .rightBrace ∧
        StatementList E B right ts ss ∧ r.tokens <+: ts ++ [right] := by
  intro fuel
  induction fuel with
  | zero =>
    intro r hr
    exact absurd hr BreaksOff.not_fail
  | succ fuel ih =>
    intro r hbreaks
    rcases hbreaks.bind (accept_scans _ r) with hr | ⟨b, r₁, hclose, hr, -⟩
    · obtain ⟨hl, hlast⟩ := hr.accept
      exact ⟨[], r.current, [], hl, .nil, by simp [hlast]⟩
    · rcases accept_inv hclose with ⟨rfl, -, -⟩ | ⟨rfl, -, rfl⟩
      · exact absurd hr BreaksOff.not_pure
      · have hr := hr.lexeme
        split at hr
        · exact absurd hr BreaksOff.not_fail
        · rcases hr.bind (statement_scans h.scans r₁) with hr | ⟨found, r₂, hfound, hr, htokens⟩
          · obtain ⟨ts, s, hs, more, rfl⟩ := statement_completes h (spareMark .rightBrace) hr
            have hss : StatementList E B (spareMark .rightBrace) ((r₁.tokens ++ more) ++ []) [s] :=
              .cons hs .nil
            exact ⟨_, spareMark .rightBrace, [s], rfl, hss, by simp⟩
          · cases found with
            | none => exact absurd hr.lexeme BreaksOff.not_failShowing
            | some s =>
              obtain ⟨ts, hts, hs⟩ := statement_built h.sound hfound
              obtain ⟨ts', right, ss, hright, hss, hbegins⟩ := ih hr.of_pure
              rw [← headD_of_prefix hbegins] at hs
              refine ⟨_, right, s :: ss, hright, .cons hs hss, ?_⟩
              rw [htokens hts, List.append_assoc]
              exact (List.prefix_append_right_inj ts).2 hbegins

/-- A block that breaks off is completed in its statements. -/
theorem blockOf_completes (h : NestedCompletes nested E B) :
    Completes (blockOf nested) (Braced E B) := by
  intro r hr
  have hr := hr.token
  rcases hr.bind (accept_scans _ r) with hr | ⟨b, r₁, hopen, hr, htokens⟩
  · obtain ⟨hl, hlast⟩ := hr.accept
    have hright : (spareMark .rightBrace).lexeme = .punctuation .rightBrace := rfl
    exact .of (.intro hl .nil hright) (by simp [hlast])
  · rcases accept_inv hopen with ⟨rfl, hl, hopen⟩ | ⟨rfl, -, -⟩
    · obtain ⟨ts, right, ss, hright, hss, hbegins⟩ := statements_complete h _ hr.budget.of_pure
      rw [htokens hopen]
      exact .of (.intro hl hss hright) (by simpa using hbegins)
    · exact absurd hr BreaksOff.not_pure

end

/-- **A block that breaks off can be completed.** One more level of nesting is enough, for what
would have been nested too deep. -/
theorem block_completes (depth : Nat) :
    Completes (Parser.block depth) (BlockPhrase (depth + 1)) := by
  induction depth with
  | zero =>
    intro r hr
    have hr := hr.lexeme
    split at hr
    · exact absurd hr BreaksOff.not_fail
    · exact absurd hr BreaksOff.not_pure
  | succ depth ih =>
    have he := expression_completes depth
    have hleft : (spareMark .leftBrace).lexeme = .punctuation .leftBrace := rfl
    have hright : (spareMark .rightBrace).lexeme = .punctuation .rightBrace := rfl
    have hspare : ∃ b, BlockPhrase (depth + 1) [spareMark .leftBrace, spareMark .rightBrace] b :=
      ⟨_, .intro hleft .nil hright⟩
    exact blockOf_completes ⟨⟨he.sound, expression_first _, block_sound_of_le (Nat.le_succ depth)⟩,
      ⟨he.scans, block_scans depth⟩, he.completes, ih, he.spare, hspare⟩

/-! ## Functions and programs -/

/-- Parameters that break off lack a name or their type. -/
theorem parameterGroup_completes : Completes parameterGroup ParameterGroup := by
  intro r hr
  have hr := hr.token
  generalize hl : r.current.token.lexeme = l at hr
  have htype : TypeName [spareType] .bool := .intro rfl
  split at hr
  · rcases hr.bind (.advance (by simp [hl])) with hr | ⟨u, r₁, hadv, hr, htokens⟩
    · exact .of (.intro (.intro hl) .nil htype) (by simp [hr.advance])
    · rw [htokens (reads_of_advance (by simp [hl]) hadv)]
      rcases hr.bind (moreAfterCommas_scans (expectIdentifier_scans _) r₁) with
        hr | ⟨names, r₂, hnames, hr, htokens⟩
      · have hsample : ∃ ts a, Name ts a := ⟨[spareName], _, .intro rfl⟩
        obtain ⟨ts, names, hnames, more, rfl⟩ := moreAfterCommas_completes
          expectIdentifier_completes (expectIdentifier_scans _) builds_expectIdentifier hsample hr
        exact .of (.intro (.intro hl) hnames htype) (by simp)
      · obtain ⟨ts, hts, hnames⟩ := builds_moreAfterCommas builds_expectIdentifier hnames
        obtain ⟨ts', type, htype, more, rfl⟩ :=
          typeAnnotation_completes (hr.of_pure.require (typeAnnotation_scans r₂))
        rw [htokens hts]
        exact .of (.intro (.intro hl) hnames htype) (by simp)
  · exact absurd hr BreaksOff.not_pure

/-- A list of parameters is completed in its last group. -/
theorem parameters_completes : Completes parameters ParameterList := by
  intro r hr
  rcases hr.bind (parameterGroup_scans r) with hr | ⟨found, r₁, hfound, hr, htokens⟩
  · obtain ⟨ts, group, hgroup, hts⟩ := parameterGroup_completes hr
    exact .of (.some hgroup .nil) (by simpa using hts)
  · cases found with
    | none => exact absurd hr BreaksOff.not_pure
    | some group =>
      obtain ⟨ts, hts, hgroup⟩ := parameterGroup_sound.built hfound
      obtain ⟨ts', groups, hgroups, more, rfl⟩ := moreAfterCommas_completes
        (parameterGroup_completes.require parameterGroup_scans _)
        (require_scans parameterGroup_scans _) (parameterGroup_sound.builds_require _)
        ⟨_, _, hgroup⟩ hr.of_pure
      rw [htokens hts]
      exact .of (.some hgroup hgroups) (by simp)

section
variable {nested : Nested} {B : Phrase Block}

/-- A rule for the bodies of functions that can be completed. -/
structure BodyCompletes (nested : Nested) (B : Phrase Block) : Prop where
  sound : RuleSound nested.block B (isMark .leftBrace)
  scans : Scans nested.block
  completes : Completes nested.block B
  spare : ∃ ts b, B ts b

/-- A function that breaks off is completed in its parameters, its type or its body. -/
theorem functionOf_completes (h : BodyCompletes nested B) :
    Completes (functionOf nested) (FunctionPhrase B) := by
  intro r hr
  have hr := hr.token
  generalize hl : r.current.token.lexeme = l at hr
  obtain ⟨spareBody, body, hbody⟩ := h.spare
  have hleft : (spareMark .leftParenthesis).lexeme = .punctuation .leftParenthesis := rfl
  have hright : (spareMark .rightParenthesis).lexeme = .punctuation .rightParenthesis := rfl
  split at hr
  · rcases hr.bind (.advance (by simp [hl])) with hr | ⟨u, r₁, hadv, hr, htokens⟩
    · exact .of (.intro hl hleft .none hright .none hbody) (by simp [hr.advance])
    · rw [htokens (reads_of_advance (by simp [hl]) hadv)]
      rcases hr.bind (expect_scans _ _ r₁) with hr | ⟨u, r₂, hopen, hr, htokens⟩
      · obtain ⟨hleft, hlast⟩ := hr.expect
        exact .of (.intro hl hleft .none hright .none hbody) (by simp [hlast])
      · obtain ⟨hleft, hopen⟩ := expect_inv hopen
        rw [htokens hopen]
        rcases hr.bind (parameters_scans r₂) with hr | ⟨ps, r₃, hps, hr, htokens⟩
        · obtain ⟨ts, ps, hps, more, rfl⟩ := parameters_completes hr
          exact .of (.intro hl hleft hps hright .none hbody) (by simp)
        · obtain ⟨ts, hts, hps⟩ := builds_parameters hps
          rw [htokens hts]
          rcases hr.bind (expect_scans _ _ r₃) with hr | ⟨u, r₄, hclose, hr, htokens⟩
          · obtain ⟨hright, hlast⟩ := hr.expect
            exact .of (.intro hl hleft hps hright .none hbody) (by simp [hlast])
          · obtain ⟨hright, hclose⟩ := expect_inv hclose
            rw [htokens hclose]
            rcases hr.bind (typeAnnotation_scans r₄) with hr | ⟨found, r₅, hfound, hr, htokens⟩
            · obtain ⟨ts', type, htype, more, rfl⟩ := typeAnnotation_completes hr
              exact .of (.intro hl hleft hps hright (.some htype) hbody) (by simp)
            · obtain ⟨ts', hts', htype⟩ := returnType_sound hfound
              obtain ⟨ts'', body, hbody, more, rfl⟩ := h.completes (hr.of_pure.require (h.scans r₅))
              rw [htokens hts']
              exact .of (.intro hl hleft hps hright htype hbody) (by simp)
  · exact absurd hr BreaksOff.not_pure

/-- Functions that break off are completed in the last of them. -/
theorem functions_completes (h : BodyCompletes nested B) :
    ∀ (fuel : Nat) (defined : Program),
      Completes (functions nested fuel defined) (FunctionList B) := by
  intro fuel
  induction fuel with
  | zero =>
    intro defined r hr
    exact absurd hr BreaksOff.not_pure
  | succ fuel ih =>
    intro defined r hr
    rcases hr.bind (functionOf_scans h.scans r) with hr | ⟨found, r₁, hfound, hr, htokens⟩
    · obtain ⟨ts, f, hf, hts⟩ := functionOf_completes h hr
      exact .of (.cons hf .nil) (by simpa using hts)
    · cases found with
      | none => exact absurd hr BreaksOff.not_pure
      | some f =>
        dsimp only at hr
        cases hnew : defined.find? f.name with
        | some earlier =>
          rw [hnew] at hr
          -- a name that is taken is an error of its own, and not where the tokens end
          obtain ⟨position, cause, -, hr⟩ := hr
          cases hr
        | none =>
          rw [hnew] at hr
          obtain ⟨ts, hts, hf⟩ := (functionOf_sound h.sound).built hfound
          obtain ⟨ts', fs, hfs, more, rfl⟩ := ih _ hr
          rw [htokens hts]
          exact .of (.cons hf hfs) (by simp)

/-- **A program that breaks off can be completed.** -/
theorem programOf_completes (h : BodyCompletes nested B) :
    Completes (programOf nested) (FunctionList B) := by
  intro r hr
  have hloop : BreaksOff (functionsOn nested ⟨[]⟩ >>= fun found => do
      let lexeme ← lexeme
      if lexeme = .endOfInput then return found
      else fail (.noEtxToken (← lexeme.describe))) r := hr
  rcases hloop.bind (functionsOn_scans h.scans h.sound ⟨[]⟩ r) with hr | ⟨found, r₁, -, hr, -⟩
  · exact functions_completes h _ _ hr.budget
  · have hr := hr.lexeme
    split at hr
    · exact absurd hr BreaksOff.not_pure
    · exact absurd hr BreaksOff.not_failShowing

end

end FLang
