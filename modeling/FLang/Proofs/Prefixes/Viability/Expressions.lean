import FLang.Proofs.Prefixes.Scanning

/-!
# What breaks off can be completed

Where the tokens of a reader end in a fault of the lexer, a rule may run into it: it *breaks off*.
Up to there it has followed the grammar, so its tokens begin some phrase of its construct
(`Completes`). What is missing is supplied by constants, empty blocks and closing marks.
-/

namespace FLang

open Grammar Parse FLang.Parser

/-- The tokens of a reader. -/
def Reader.tokens (r : Reader) : List Lookahead :=
  r.current :: r.ahead

/-- A computation moves onto a fault of the lexer behind the tokens of a reader. -/
def BreaksOff {α : Type} (x : Parse α) (r : Reader) : Prop :=
  ∃ position cause, r.fault = some (.lexical position cause) ∧
    x r = .error (.lexical position cause)

/-- Some phrase begins with some tokens. -/
def Begins {α : Type} (phrase : Phrase α) (ts : List Lookahead) : Prop :=
  ∃ ts' a, phrase ts' a ∧ ts <+: ts'

/-- Where a computation breaks off, some phrase can be completed. -/
def Completes {α β : Type} (x : Parse β) (phrase : Phrase α) : Prop :=
  ∀ ⦃r : Reader⦄, BreaksOff x r → Begins phrase r.tokens

section
variable {α β : Type} {x : Parse α} {f : α → Parse β} {r r' : Reader} {ts : List Lookahead}

/-- In front of an error of the lexer, the tokens that are read are those that a reader has lost. -/
theorem Reads.tokens_eq (h : Reads r ts r') {fault : Fault} (hfault : r.fault = some fault) :
    r.tokens = ts ++ r'.tokens ∧ r'.fault = some fault := by
  induction h with
  | nil => exact ⟨rfl, hfault⟩
  | @cons r r₁ r' ts _ hn _ ih =>
    rcases hahead : r.ahead with _ | ⟨t, rest⟩
    · rcases Reader.next_eq_ok hn with ⟨-, ha⟩ | ⟨-, hnone, -⟩
      · rw [hahead] at ha
        cases ha
      · rw [hfault] at hnone
        cases hnone
    · rw [Reader.next_of_ahead hahead] at hn
      obtain rfl := Except.ok.inj hn
      obtain ⟨htokens, hfault'⟩ := ih hfault
      refine ⟨?_, hfault'⟩
      rw [Reader.tokens, hahead, List.cons_append, ← htokens]
      rfl

namespace BreaksOff

/-- A sequence breaks off in one of its parts. -/
theorem bind (h : BreaksOff (x >>= f) r) (hx : ScansAt x r) :
    BreaksOff x r ∨ ∃ a r₁, x r = .ok (a, r₁) ∧ BreaksOff (f a) r₁ ∧
      ∀ {ts}, Reads r ts r₁ → r.tokens = ts ++ r₁.tokens := by
  obtain ⟨position, cause, hfault, h⟩ := h
  rcases hxr : x r with fault | ⟨a, r₁⟩
  · rw [bind_of_error hxr] at h
    exact .inl ⟨position, cause, hfault, hxr.trans (congrArg Except.error (Except.error.inj h))⟩
  · rw [bind_of_ok hxr] at h
    obtain ⟨ts, hts⟩ := hx.reads hxr
    exact .inr ⟨a, r₁, rfl, ⟨position, cause, (hts.tokens_eq hfault).2, h⟩,
      fun hts => (hts.tokens_eq hfault).1⟩

/-- What yields a value does not break off. -/
theorem not_pure {a : α} : ¬ BreaksOff (pure a) r := by
  rintro ⟨position, cause, -, h⟩
  cases h

/-- A syntax error is not the error of the lexer. -/
theorem not_fail {cause : Diagnostic.Cause} : ¬ BreaksOff (fail cause : Parse α) r := by
  rintro ⟨position, cause', -, h⟩
  cases h

/-- A syntax error that shows a token is not the error of the lexer either. -/
theorem not_failShowing {l : Lexeme} {cause : String → Diagnostic.Cause} :
    ¬ BreaksOff (do fail (cause (← l.describe)) : Parse α) r := by
  rintro ⟨position, cause', -, h⟩
  have herror : ∀ {fault}, l.describe = .error fault → fault = .tooManyDigits none :=
    describe_error
  generalize l.describe = shown at h herror
  cases shown with
  | ok text => cases h
  | error fault =>
    obtain rfl := herror rfl
    cases h

/-- Working out a result from what was read does not break off. -/
theorem of_pure {g : α → β} (h : BreaksOff (x >>= fun a => pure (g a)) r) : BreaksOff x r := by
  obtain ⟨position, cause, hfault, h⟩ := h
  rcases hxr : x r with fault | ⟨a, r₁⟩
  · rw [bind_of_error hxr] at h
    exact ⟨position, cause, hfault, hxr.trans (congrArg Except.error (Except.error.inj h))⟩
  · rw [bind_of_ok hxr] at h
    cases h

/-- Moving on breaks off behind the last token. -/
theorem advance (h : BreaksOff Parse.advance r) : r.tokens = [r.current] := by
  obtain ⟨position, cause, -, h⟩ := h
  rcases hahead : r.ahead with _ | ⟨t, rest⟩
  · rw [Reader.tokens, hahead]
  · rw [Parse.advance, Reader.next_of_ahead hahead] at h
    cases h

/-- Looking at the current token does not break off. -/
theorem token {f : Token → Parse β} (h : BreaksOff (Parse.token >>= f) r) :
    BreaksOff (f r.current.token) r := by
  rwa [BreaksOff, token_bind] at h

theorem lexeme {f : Lexeme → Parse β} (h : BreaksOff (Parse.lexeme >>= f) r) :
    BreaksOff (f r.current.lexeme) r := by
  rwa [BreaksOff, lexeme_bind] at h

theorem newlineBefore {f : Bool → Parse β} (h : BreaksOff (Parse.newlineBefore >>= f) r) :
    BreaksOff (f r.current.newlineBefore) r := by
  rwa [BreaksOff, newlineBefore_bind] at h

theorem budget {f : Nat → Parse β} (h : BreaksOff (Parse.budget >>= f) r) :
    BreaksOff (f r.budget) r := by
  rwa [BreaksOff, budget_bind] at h

/-- A mark that is expected breaks off where it is the last token. -/
theorem expect {mark : Punctuation} {cause : Diagnostic.Cause}
    (h : BreaksOff (Parse.expect mark cause) r) :
    r.current.lexeme = .punctuation mark ∧ r.tokens = [r.current] := by
  have h := h.lexeme
  split at h
  · next hl => exact ⟨hl, h.advance⟩
  · exact absurd h not_fail

/-- A token that is accepted breaks off where it is the last one. -/
theorem acceptLexeme {wanted : Lexeme} (h : BreaksOff (Parse.acceptLexeme wanted) r) :
    r.current.lexeme = wanted ∧ r.tokens = [r.current] := by
  have h := h.lexeme
  split at h
  · next hl => exact ⟨hl, h.of_pure.advance⟩
  · exact absurd h not_pure

theorem accept {mark : Punctuation} (h : BreaksOff (Parse.accept mark) r) :
    r.current.lexeme = .punctuation mark ∧ r.tokens = [r.current] := by
  rw [accept_eq] at h
  exact h.acceptLexeme

theorem acceptKeyword {word : Keyword} (h : BreaksOff (Parse.acceptKeyword word) r) :
    r.current.lexeme = .keyword word ∧ r.tokens = [r.current] := by
  rw [acceptKeyword_eq] at h
  exact h.acceptLexeme

/-- What has to be there breaks off where the rule for it does. -/
theorem require {rule : Parse (Option α)} {cause : Diagnostic.Cause}
    (h : BreaksOff (Parse.require rule cause) r) (hrule : ScansAt rule r) : BreaksOff rule r := by
  rcases h.bind hrule with h | ⟨found, r₁, -, h, -⟩
  · exact h
  · cases found with
    | none => exact absurd h not_fail
    | some a => exact absurd h not_pure

end BreaksOff

end

/-! ## Names, types and items -/

/-- A constant, which can stand for any expression that is missing. -/
def spareConstant : Lookahead := ⟨⟨.constant (.bool true), Position.start⟩, false⟩

/-- A mark that is missing. -/
def spareMark (mark : Punctuation) : Lookahead := ⟨⟨.punctuation mark, Position.start⟩, false⟩

/-- A name that is missing. -/
def spareName : Lookahead := ⟨⟨.identifier "x", Position.start⟩, false⟩

/-- The name of a type that is missing. -/
def spareType : Lookahead := ⟨⟨.typeName .bool, Position.start⟩, false⟩

section
variable {α : Type} {item : Parse α} {phrase : Phrase α} {r : Reader}

/-- Tokens begin a phrase that starts with them. -/
theorem Begins.of {ts ts' : List Lookahead} {a : α} (h : phrase ts' a) (hts : ts <+: ts') :
    Begins phrase ts :=
  ⟨ts', a, h, hts⟩

/-- A name is complete where it breaks off. -/
theorem expectIdentifier_completes {cause : Diagnostic.Cause} :
    Completes (expectIdentifier cause) Name := by
  intro r h
  have h := h.token
  generalize hl : r.current.token.lexeme = l at h
  split at h
  · have htokens := h.of_pure.advance
    exact .of (.intro hl) (htokens ▸ List.prefix_refl _)
  · exact absurd h BreaksOff.not_fail

/-- The name of a type is complete where it breaks off. -/
theorem typeAnnotation_completes : Completes typeAnnotation TypeName := by
  intro r h
  have h := h.lexeme
  generalize hl : r.current.lexeme = l at h
  split at h
  · have htokens := h.of_pure.advance
    exact .of (.intro hl) (htokens ▸ List.prefix_refl _)
  · exact absurd h BreaksOff.not_pure

/-- What has to be there is completed as the rule for it is. -/
theorem Completes.require {rule : Parse (Option α)} (h : Completes rule phrase) (hs : Scans rule)
    (cause : Diagnostic.Cause) : Completes (Parse.require rule cause) phrase :=
  fun _ hr => h (hr.require (hs _))

/-- Items after commas break off behind a comma, in an item or behind one. -/
theorem afterCommas_completes (h : Completes item phrase) (hs : Scans item)
    (hb : Builds item phrase) (hsample : ∃ ts a, phrase ts a) (fuel : Nat) :
    Completes (afterCommas item fuel) (AfterCommas phrase) := by
  induction fuel with
  | zero => exact fun r h => absurd h BreaksOff.not_pure
  | succ fuel ih =>
    intro r hr
    rcases hr.bind (accept_scans _ r) with hr | ⟨b, r₁, hcomma, hr, htokens⟩
    · obtain ⟨hl, htokens⟩ := hr.accept
      obtain ⟨ts, a, ha⟩ := hsample
      refine .of (.cons hl ha .nil) ?_
      simp [htokens]
    · rcases accept_inv hcomma with ⟨rfl, hl, hcomma⟩ | ⟨rfl, -, -⟩
      · rw [htokens hcomma]
        rcases hr.bind (hs r₁) with hr | ⟨a, r₂, ha, hr, htokens⟩
        · obtain ⟨ts, a, ha, more, rfl⟩ := h hr
          refine .of (.cons hl ha .nil) ?_
          simp
        · obtain ⟨ts, hts, ha⟩ := hb ha
          rw [htokens hts]
          obtain ⟨ts', as, has, more, rfl⟩ := ih hr.of_pure
          refine .of (.cons hl ha has) ?_
          simp
      · exact absurd hr BreaksOff.not_pure

/-- Items that break off are completed in the last of them, or by a sample behind a comma. -/
theorem moreAfterCommas_completes (h : Completes item phrase) (hs : Scans item)
    (hb : Builds item phrase) (hsample : ∃ ts a, phrase ts a) :
    Completes (moreAfterCommas item) (AfterCommas phrase) := by
  exact fun r hr => afterCommas_completes h hs hb hsample _ hr.budget

end

/-! ## Expressions -/

/-- A rule for expressions that can be completed. -/
structure ExpressionCompletes (nested : Parse (Option Expression)) (phrase : Phrase Expression) :
    Prop where
  sound : RuleSound nested phrase startsExpression
  scans : Scans nested
  completes : Completes nested phrase
  spare : ∃ e, phrase [spareConstant] e

section
variable {nested : Parse (Option Expression)} {phrase : Phrase Expression}

/-- An expression that has to be there can be completed. -/
theorem ExpressionCompletes.require (h : ExpressionCompletes nested phrase)
    (cause : Diagnostic.Cause) : Completes (Parse.require nested cause) phrase :=
  h.completes.require h.scans cause

/-- Arguments that break off are completed in the last of them. -/
theorem argumentList_completes (h : ExpressionCompletes nested phrase) (name : String) :
    Completes (argumentList nested name) (ArgumentList phrase) := by
  intro r hr
  rcases hr.bind (h.scans r) with hr | ⟨found, r₁, hfound, hr, htokens⟩
  · obtain ⟨ts, e, he, hts⟩ := h.completes hr
    exact .of (.some he .nil) (by simpa using hts)
  · cases found with
    | none => exact absurd hr BreaksOff.not_pure
    | some e =>
      obtain ⟨ts, hts, he⟩ := h.sound.built hfound
      obtain ⟨spare, hspare⟩ := h.spare
      obtain ⟨ts', es, hes, more, rfl⟩ := moreAfterCommas_completes (h.require _)
        (require_scans h.scans _) (h.sound.builds_require _) ⟨_, _, hspare⟩ hr.of_pure
      rw [htokens hts]
      exact .of (.some he hes) (by simp)

/-- A call that breaks off is completed in its arguments, and then by its parenthesis. -/
theorem callArguments_completes (h : ExpressionCompletes nested phrase) (name : String) :
    Completes (callArguments nested name) (CallArguments phrase) := by
  intro r hr
  have hright : (spareMark .rightParenthesis).lexeme = .punctuation .rightParenthesis := rfl
  rcases hr.bind (accept_scans _ r) with hr | ⟨b, r₁, hleft, hr, htokens⟩
  · obtain ⟨hl, htokens⟩ := hr.accept
    exact .of (.intro hl .none hright) (by simp [htokens])
  · rcases accept_inv hleft with ⟨rfl, hl, hleft⟩ | ⟨rfl, -, -⟩
    · rw [htokens hleft]
      rcases hr.bind (argumentList_scans h.scans name r₁) with hr | ⟨es, r₂, hes, hr, htokens⟩
      · obtain ⟨ts, es, hes, more, rfl⟩ := argumentList_completes h name hr
        exact .of (.intro hl hes hright) (by simp)
      · obtain ⟨ts, hts, hes⟩ := builds_argumentList h.sound name hes
        obtain ⟨hclose, hlast⟩ := hr.of_pure.expect
        rw [htokens hts, hlast]
        exact .of (.intro hl hes hclose) (by simp)
    · exact absurd hr BreaksOff.not_pure

/-- A term that breaks off is a constant or a name already, or is completed inside its
parentheses. -/
theorem term_completes (h : ExpressionCompletes nested phrase) :
    Completes (term nested) (Term phrase) := by
  intro r hr
  have hr := hr.token
  generalize hl : r.current.token.lexeme = l at hr
  split at hr
  · exact .of (.literal hl) (by simp [hr.of_pure.advance])
  · -- a name
    rcases hr.bind (.advance (by simp [hl])) with hr | ⟨u, r₁, hadv, hr, htokens⟩
    · exact .of (.reference hl) (by simp [hr.advance])
    · rw [htokens (reads_of_advance (by simp [hl]) hadv)]
      rcases hr.bind (callArguments_scans h.scans _ r₁) with hr | ⟨found, r₂, -, hr, -⟩
      · obtain ⟨ts, es, hes, more, rfl⟩ := callArguments_completes h _ hr
        exact .of (.call hl hes) (by simp)
      · cases found with
        | none => exact absurd hr BreaksOff.not_pure
        | some es => exact absurd hr BreaksOff.not_pure
  · -- an expression in parentheses
    have hright : (spareMark .rightParenthesis).lexeme = .punctuation .rightParenthesis := rfl
    rcases hr.bind (.advance (by simp [hl])) with hr | ⟨u, r₁, hadv, hr, htokens⟩
    · obtain ⟨e, he⟩ := h.spare
      exact .of (.parentheses hl he hright) (by simp [hr.advance])
    · rw [htokens (reads_of_advance (by simp [hl]) hadv)]
      rcases hr.bind (require_scans h.scans _ r₁) with hr | ⟨e, r₂, he, hr, htokens⟩
      · obtain ⟨ts, e, he, more, rfl⟩ := h.require _ hr
        exact .of (.parentheses hl he hright) (by simp)
      · obtain ⟨ts, hts, he⟩ := h.sound.builds_require _ he
        obtain ⟨hclose, hlast⟩ := hr.of_pure.expect
        rw [htokens hts, hlast]
        exact .of (.parentheses hl he hclose) (by simp)
  · exact absurd hr BreaksOff.not_pure

/-- Behind a sign, an operand is completed or put there. -/
theorem unary_completes (h : ExpressionCompletes nested phrase) :
    Completes (unary nested) (Unary phrase) := by
  intro r hr
  have hr := hr.token
  split at hr
  · next hs =>
    have hsign := isSign_eq_true.1 hs
    have hne : r.current.lexeme ≠ .endOfInput := by rcases hsign with hl | hl <;> simp [hl]
    rcases hr.bind (.advance hne) with hr | ⟨u, r₁, hadv, hr, htokens⟩
    · have hspare : Term phrase [spareConstant] (.literal Position.start (.bool true)) :=
        .literal rfl
      exact .of (.signed hsign hspare) (by simp [hr.advance])
    · rw [htokens (reads_of_advance hne hadv)]
      obtain ⟨ts, e, he, more, rfl⟩ :=
        (term_completes h).require (term_scans h.scans) _ hr.of_pure
      exact .of (.signed hsign he) (by simp)
  · obtain ⟨ts, e, he, hts⟩ := term_completes h hr
    exact .of (.plain he) hts

/-- A cast that breaks off lacks its type at most. -/
theorem casted_completes (h : ExpressionCompletes nested phrase) :
    Completes (casted nested) (Casted phrase) := by
  intro r hr
  rcases hr.bind (unary_scans h.scans r) with hr | ⟨found, r₁, hfound, hr, htokens⟩
  · obtain ⟨ts, e, he, hts⟩ := unary_completes h hr
    exact .of (.plain he) hts
  · cases found with
    | none => exact absurd hr BreaksOff.not_pure
    | some e =>
      obtain ⟨ts, hts, he⟩ := (unary_sound h.sound).built hfound
      rw [htokens hts]
      have hr := hr.token
      rcases hr.bind (acceptKeyword_scans _ r₁) with hr | ⟨b, r₂, has, hr, htokens⟩
      · obtain ⟨hl, hlast⟩ := hr.acceptKeyword
        have htype : TypeName [spareType] .bool := .intro rfl
        exact .of (.cast he hl htype) (by simp [hlast])
      · rcases acceptKeyword_inv has with ⟨rfl, hl, has⟩ | ⟨rfl, -, -⟩
        · obtain ⟨ts', type, htype, more, rfl⟩ :=
            typeAnnotation_completes.require typeAnnotation_scans _ hr.of_pure
          rw [htokens has]
          exact .of (.cast he hl htype) (by simp)
        · exact absurd hr BreaksOff.not_pure

end

section
variable {operatorOf : Lexeme → Option BinaryOperator} {ops : List BinaryOperator}
  {operand : Parse (Option Expression)} {phrase : Phrase Expression}

/-- The loop of a level breaks off behind an operator or in an operand. -/
theorem chainFrom_completes (htable : Tabulates operatorOf ops)
    (h : ExpressionCompletes operand phrase) (fuel : Nat) {ts : List Lookahead}
    {left : Expression} (hleft : LeftAssociative ops phrase ts left) {r : Reader}
    (hr : BreaksOff (chainFrom operatorOf operand fuel left) r) :
    Begins (LeftAssociative ops phrase) (ts ++ r.tokens) := by
  induction fuel generalizing ts left r with
  | zero => exact absurd hr BreaksOff.not_pure
  | succ fuel ih =>
    have hr := hr.token
    generalize hop : operatorOf r.current.token.lexeme = found at hr
    cases found with
    | none => exact absurd hr BreaksOff.not_pure
    | some op =>
      obtain ⟨hl, hmem⟩ := (htable _ _).1 hop
      have hne : r.current.lexeme ≠ .endOfInput := by simp [hl]
      rcases hr.bind (.advance hne) with hr | ⟨u, r₁, hadv, hr, htokens⟩
      · obtain ⟨e, he⟩ := h.spare
        exact .of (.more hleft hl hmem he) (by simp [hr.advance])
      · rw [htokens (reads_of_advance hne hadv)]
        rcases hr.bind (require_scans h.scans _ r₁) with hr | ⟨e, r₂, he, hr, htokens⟩
        · obtain ⟨ts', e, he, more, rfl⟩ := h.require _ hr
          exact .of (.more hleft hl hmem he) (by simp)
        · obtain ⟨ts', hts', he⟩ := h.sound.builds_require _ he
          rw [htokens hts']
          simpa using ih (.more hleft hl hmem he) hr

/-- A chain that breaks off is completed in its last operand, or by one behind an operator. -/
theorem chain_completes (htable : Tabulates operatorOf ops)
    (h : ExpressionCompletes operand phrase) :
    ExpressionCompletes (chain operatorOf operand) (LeftAssociative ops phrase) where
  sound := chain_sound htable h.sound
  scans := chain_scans htable h.scans
  completes := by
    intro r hr
    rcases hr.bind (h.scans r) with hr | ⟨found, r₁, hfound, hr, htokens⟩
    · obtain ⟨ts, e, he, hts⟩ := h.completes hr
      exact .of (.single he) hts
    · cases found with
      | none => exact absurd hr BreaksOff.not_pure
      | some left =>
        obtain ⟨ts, hts, hleft⟩ := h.sound.built hfound
        rw [htokens hts]
        exact chainFrom_completes htable h _ (.single hleft) hr.budget.of_pure
  spare := by
    obtain ⟨e, he⟩ := h.spare
    exact ⟨e, .single he⟩

end

section
variable {nested : Parse (Option Expression)} {phrase : Phrase Expression}

theorem additive_completes (h : ExpressionCompletes nested phrase) :
    ExpressionCompletes (additive nested) (Sum phrase) := by
  have hcasted : ExpressionCompletes (casted nested) (Casted phrase) :=
    ⟨casted_sound h.sound, casted_scans h.scans, casted_completes h, _,
      .plain (.plain (.literal rfl))⟩
  exact chain_completes sumOperator_tabulates (chain_completes productOperator_tabulates hcasted)

/-- A relation that breaks off is completed on the side where it does. -/
theorem relation_completes (h : ExpressionCompletes nested phrase) :
    ExpressionCompletes (Parser.relation nested) (Comparison phrase) where
  sound := relation_sound h.sound
  scans := relation_scans h.scans
  completes := by
    intro r hr
    have hsum := additive_completes h
    rcases hr.bind (hsum.scans r) with hr | ⟨found, r₁, hfound, hr, htokens⟩
    · obtain ⟨ts, e, he, hts⟩ := hsum.completes hr
      exact .of (.plain he) hts
    · cases found with
      | none => exact absurd hr BreaksOff.not_pure
      | some left =>
        obtain ⟨ts, hts, hleft⟩ := hsum.sound.built hfound
        rw [htokens hts]
        have hr := hr.token
        generalize hop : relationOperator r₁.current.token.lexeme = found at hr
        cases found with
        | none => exact absurd hr BreaksOff.not_pure
        | some op =>
          have hl := relationOperator_eq_some.1 hop
          have hne : r₁.current.lexeme ≠ .endOfInput := by simp [hl]
          rcases hr.bind (.advance hne) with hr | ⟨u, r₂, hadv, hr, htokens⟩
          · obtain ⟨e, he⟩ := hsum.spare
            exact .of (.compare hleft hl he) (by simp [hr.advance])
          · obtain ⟨ts', e, he, more, rfl⟩ := hsum.require _ hr.of_pure
            rw [htokens (reads_of_advance hne hadv)]
            exact .of (.compare hleft hl he) (by simp)
  spare := by
    obtain ⟨e, he⟩ := (additive_completes h).spare
    exact ⟨e, .plain he⟩

/-- The levels of operators are completed one in the other. -/
theorem disjunction_completes (h : ExpressionCompletes nested phrase) :
    ExpressionCompletes (disjunction nested) (Disjunction phrase) :=
  chain_completes orOperator_tabulates
    (chain_completes andOperator_tabulates (relation_completes h))

end

/-- Expressions of a depth can be completed with what is nested one deeper. -/
theorem expression_completes (depth : Nat) :
    ExpressionCompletes (Parser.expression depth) (ExpressionPhrase (depth + 1)) := by
  induction depth with
  | zero =>
    refine ⟨expression_sound_of_le (Nat.zero_le 1), expression_scans 0, fun r hr => ?_, _,
      disjunction_of_term (.literal rfl)⟩
    have hr := hr.lexeme
    split at hr
    · exact absurd hr BreaksOff.not_fail
    · exact absurd hr BreaksOff.not_pure
  | succ depth ih => exact disjunction_completes ih

end FLang
