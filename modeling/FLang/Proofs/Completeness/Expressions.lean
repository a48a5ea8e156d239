import FLang.Proofs.Completeness.Rules
import FLang.Proofs.Soundness.Expressions

/-!
# Expressions of the grammar are found

Each rule for expressions is complete if the rule for nested expressions is. A level of the
precedence ladder ends where its own operators and those of the tighter levels do not go on; an
expression ends where no operator, cast or parenthesis follows (`EndsExpression`).
-/

namespace FLang

open Grammar Parse FLang.Parser

variable {deep : Prop} {r r' : Reader}

/-! ## Terms, signs and casts -/

/-- What can stand behind a term: a parenthesis would make a name the name of a call. -/
def EndsTerm (l : Lexeme) : Prop :=
  l ≠ .punctuation .leftParenthesis

/-- What can stand behind a casted term. -/
def EndsCasted (l : Lexeme) : Prop :=
  EndsTerm l ∧ l ≠ .keyword .as

/-- What can stand behind an expression. -/
def EndsExpression (l : Lexeme) : Prop :=
  EndsCasted l ∧ ∀ op, l ≠ .operator op

theorem endsExpression_punctuation {mark : Punctuation} (h : mark ≠ .leftParenthesis) :
    EndsExpression (.punctuation mark) :=
  ⟨⟨by simpa [EndsTerm] using h, by simp⟩, by simp⟩

section
variable {nested : Parse (Option Expression)} {phrase : Phrase Expression}

/-- Arguments are found up to their closing parenthesis. -/
theorem finds_argumentList
    (h : RuleComplete deep EndsExpression nested phrase startsExpression) (name : String) :
    Finds deep (· = .punctuation .rightParenthesis) (argumentList nested name)
      (ArgumentList phrase) := by
  intro ts es r r' hes hr hfollow
  unfold argumentList
  cases hes with
  | none =>
    obtain rfl := hr.nil_inv
    rw [bind_of_ok (h.declines (by rw [hfollow]; rfl))]
    exact .pure []
  | some he hrest =>
    obtain ⟨r₁, hr₁, hr₂⟩ := hr.append_inv
    have hclose : EndsExpression r'.current.lexeme := by
      rw [hfollow]
      exact endsExpression_punctuation (by simp)
    have hcomma : EndsExpression (.punctuation .comma) := endsExpression_punctuation (by simp)
    have hnext : EndsExpression r₁.current.lexeme := hrest.follows hr₂ hcomma hclose
    refine (h.finds he hr₁ hnext).bind ((finds_moreAfterCommas (h.finds_require _) hcomma
      hrest hr₂ ⟨hclose, ?_⟩).bind (.pure _))
    rw [hfollow]
    simp

/-- Arguments are found exactly where a parenthesis opens. -/
theorem callArguments_complete
    (h : RuleComplete deep EndsExpression nested phrase startsExpression) (name : String) :
    RuleComplete deep (fun _ => True) (callArguments nested name) (CallArguments phrase)
      (isMark .leftParenthesis) where
  finds := by
    intro ts es r r' hes hr _
    cases hes with
    | intro hl hargs hright =>
      obtain ⟨r₁, hr₁, hr₂⟩ := hr.append_inv
      obtain ⟨r₂, hr₃, hr₁⟩ := hr₁.cons_split
      unfold callArguments
      rw [bind_of_ok (accept_of_reads hr₃ hl)]
      refine (finds_argumentList h name hargs hr₁ ?_).bind
        (Yields.bind (.ok (expect_of_reads hr₂ hright)) (.pure _))
      rw [hr₂.current_eq]
      exact hright
  declines := by
    intro r hr
    unfold callArguments
    rw [bind_of_ok (accept_of_ne (of_decide_eq_false hr))]
    rfl

/-- A name is found as a call exactly where a parenthesis follows it, which is why a term must not
be followed by one. -/
theorem term_complete (h : RuleComplete deep EndsExpression nested phrase startsExpression) :
    RuleComplete deep EndsTerm (term nested) (Term phrase) startsTerm where
  finds := by
    intro ts e r r' he hr hfollow
    unfold term
    rw [token_bind]
    cases he with
    | literal hl =>
      rw [hr.current_eq]
      simp only [hl]
      exact Yields.bind (.ok (advance_of_reads hr)) (.pure _)
    | @reference t name hl =>
      rw [hr.current_eq]
      simp only [hl]
      -- no parenthesis follows that would make the name one of a call
      have hno : callArguments nested name r' = .ok (none, r') :=
        (callArguments_complete h name).declines (decide_eq_false hfollow)
      exact Yields.bind (.ok (advance_of_reads hr)) (Yields.bind (.ok hno) (.pure _))
    | call hl hargs =>
      obtain ⟨r₁, hr₁, hr₂⟩ := hr.cons_split
      rw [hr₁.current_eq]
      simp only [hl]
      exact Yields.bind (.ok (advance_of_reads hr₁))
        (((callArguments_complete h _).finds hargs hr₂ trivial).bind (.pure _))
    | parentheses hl hinner hright =>
      obtain ⟨r₁, hr₁, hr₂⟩ := hr.append_inv
      obtain ⟨r₂, hr₃, hr₁⟩ := hr₁.cons_split
      rw [hr₃.current_eq]
      simp only [hl]
      have hnext : EndsExpression r₁.current.lexeme := by
        rw [hr₂.current_eq, hright]
        exact endsExpression_punctuation (by simp)
      exact Yields.bind (.ok (advance_of_reads hr₃)) ((h.finds_require _ hinner hr₁ hnext).bind
        (Yields.bind (.ok (expect_of_reads hr₂ hright)) (.pure _)))
  declines := by
    intro r hr
    unfold term
    rw [token_bind]
    generalize hl : r.current.token.lexeme = l
    rw [Lookahead.lexeme, hl] at hr
    unfold startsTerm at hr
    split at hr
    · cases hr
    · cases hr
    · cases hr
    · rfl

theorem isSign_of_startsTerm {l : Lexeme} (h : startsTerm l = true) : isSign l = false := by
  unfold startsTerm at h
  split at h
  · rfl
  · rfl
  · rfl
  · cases h

/-- A sign is found before a term is looked for. -/
theorem unary_complete (h : RuleComplete deep EndsExpression nested phrase startsExpression) :
    RuleComplete deep EndsTerm (unary nested) (Unary phrase) startsExpression where
  finds := by
    intro ts e r r' he hr hfollow
    unfold unary
    rw [token_bind]
    cases he with
    | plain ht =>
      obtain ⟨t, ts', rfl, hfirst⟩ := term_first _ _ ht
      have hsign := isSign_of_startsTerm hfirst
      rw [hr.current_eq, if_neg (by rw [hsign]; exact Bool.false_ne_true)]
      exact (term_complete h).finds ht hr hfollow
    | signed hs ht =>
      obtain ⟨r₁, hr₁, hr₂⟩ := hr.cons_split
      rw [hr₁.current_eq, if_pos (isSign_eq_true.2 hs)]
      exact Yields.bind (.ok (advance_of_reads hr₁))
        (((term_complete h).finds_require _ ht hr₂ hfollow).bind (.pure _))
  declines := by
    intro r hr
    rw [startsExpression, Bool.or_eq_false_iff] at hr
    unfold unary
    rw [token_bind, if_neg (by rw [hr.1]; exact Bool.false_ne_true)]
    exact (term_complete h).declines hr.2

/-- A cast is found where its keyword follows. -/
theorem casted_complete (h : RuleComplete deep EndsExpression nested phrase startsExpression) :
    RuleComplete deep EndsCasted (casted nested) (Casted phrase) startsExpression where
  finds := by
    intro ts e r r' he hr hfollow
    unfold casted
    cases he with
    | plain hu =>
      refine ((unary_complete h).finds hu hr hfollow.1).bind ?_
      simp only [token_bind]
      exact Yields.bind (.ok (acceptKeyword_of_ne hfollow.2)) (.pure _)
    | cast hu has htype =>
      obtain ⟨r₁, hr₁, hr₂⟩ := hr.append_inv
      obtain ⟨r₂, hr₃, hr₄⟩ := hr₂.cons_split
      have hnext : EndsTerm r₁.current.lexeme := by
        rw [hr₃.current_eq, has]
        simp [EndsTerm]
      refine ((unary_complete h).finds hu hr₁ hnext).bind ?_
      simp only [token_bind]
      refine Yields.bind (.ok (acceptKeyword_of_reads hr₃ has)) ?_
      rw [hr₃.current_eq]
      exact (typeAnnotation_complete.finds_require _ htype hr₄ trivial).bind (.pure _)
  declines := by
    intro r hr
    unfold casted
    rw [bind_of_ok ((unary_complete h).declines hr)]
    rfl

end

/-! ## Levels of operators -/

/-- A rule that finds phrases before some tokens finds them before fewer. -/
theorem RuleComplete.mono {α : Type} {follow follow' : Lexeme → Prop} {rule : Parse (Option α)}
    {phrase : Phrase α} {first : Lexeme → Bool} (h : RuleComplete deep follow rule phrase first)
    (hf : ∀ {l}, follow' l → follow l) : RuleComplete deep follow' rule phrase first where
  finds hp hr hl := h.finds hp hr (hf hl)
  declines := h.declines

/-- What can stand behind a level of operators. -/
def EndsLevel (ops : List BinaryOperator) (follow : Lexeme → Prop) (l : Lexeme) : Prop :=
  follow l ∧ ∀ op ∈ ops, l ≠ .operator op

section
variable {operatorOf : Lexeme → Option BinaryOperator} {ops : List BinaryOperator}
  {operand : Parse (Option Expression)} {phrase : Phrase Expression} {follow : Lexeme → Prop}

/-- The loop of a level stops where none of its operators follows. -/
theorem chainFrom_stops (htable : Tabulates operatorOf ops) (fuel : Nat) (left : Expression)
    (h : ∀ op ∈ ops, r.current.lexeme ≠ .operator op) :
    chainFrom operatorOf operand fuel left r = .ok (left, r) := by
  cases fuel with
  | zero => rfl
  | succ fuel =>
    unfold chainFrom
    rw [token_bind]
    have hnone : operatorOf r.current.token.lexeme = none := by
      rw [Option.eq_none_iff_forall_ne_some]
      intro op hop
      obtain ⟨hl, hmem⟩ := (htable _ _).1 hop
      exact h op hmem hl
    simp only [hnone]
    rfl

/-- Where the first operands of a level are read, the level has come to the loop with them, and
with fuel for all tokens that are left. -/
theorem chain_reaches (htable : Tabulates operatorOf ops)
    (hops : ∀ op ∈ ops, follow (.operator op))
    (h : RuleComplete deep follow operand phrase startsExpression) {ts : List Lookahead}
    {left : Expression} (hleft : LeftAssociative ops phrase ts left) :
    ∀ {r₁ : Reader}, Reads r ts r₁ → follow r₁.current.lexeme →
      ∃ fuel, (∀ {us r'}, Reads r₁ us r' → us.length ≤ fuel) ∧
        ∀ {e r'}, Yields deep (chainFrom operatorOf operand fuel left r₁) e r' →
          Yields deep (chain operatorOf operand r) (some e) r' := by
  induction hleft with
  | single hoperand =>
    intro r₁ hr hfollow
    refine ⟨r₁.budget, ?_, ?_⟩
    · intro us r' hus
      have hlen := hus.length_le
      rw [Reader.budget]
      omega
    · intro e r' he
      refine (h.finds hoperand hr hfollow).bind ?_
      simp only [budget_bind]
      exact he.bind (.pure _)
  | @more t op ts ts' left right _ hl hmem hright ih =>
    intro r₂ hr hfollow
    obtain ⟨r₁, hr₁, hr'⟩ := hr.append_inv
    have hnext : r₁.current = t := hr'.current_eq
    obtain ⟨fuel, hfuel, hreach⟩ := ih hr₁ (by rw [hnext, hl]; exact hops op hmem)
    -- the operator and its operand take one round of the loop
    have hround := hfuel hr'
    obtain ⟨fuel, rfl⟩ : ∃ n, fuel = n + 1 := ⟨fuel - 1, by simp at hround; omega⟩
    refine ⟨fuel, ?_, ?_⟩
    · intro us r' hus
      have hall := hfuel (hr'.append hus)
      simp only [List.length_append, List.length_cons] at hall
      omega
    · intro e r' he
      apply hreach
      obtain ⟨r₃, hop, hoperand⟩ := hr'.cons_split
      unfold chainFrom
      rw [token_bind]
      have hsome : operatorOf r₁.current.token.lexeme = some op :=
        (htable _ _).2 ⟨by rw [hnext]; exact hl, hmem⟩
      simp only [hsome]
      refine Yields.bind (.ok (advance_of_reads hop))
        ((h.finds_require _ hright hoperand hfollow).bind ?_)
      rw [hnext]
      exact he

/-- A chain is found as long as no operator of its level follows. -/
theorem chain_complete (htable : Tabulates operatorOf ops)
    (hops : ∀ op ∈ ops, follow (.operator op))
    (h : RuleComplete deep follow operand phrase startsExpression) :
    RuleComplete deep (EndsLevel ops follow) (chain operatorOf operand)
      (LeftAssociative ops phrase) startsExpression where
  finds := by
    intro ts e r r' he hr hfollow
    obtain ⟨fuel, -, hreach⟩ := chain_reaches htable hops h he hr hfollow.1
    exact hreach (.ok (chainFrom_stops htable fuel e hfollow.2))
  declines := by
    intro r hr
    unfold chain
    rw [bind_of_ok (h.declines hr)]
    rfl

end

section
variable {nested : Parse (Option Expression)} {phrase : Phrase Expression}

/-- What can stand behind a sum. -/
def EndsSum : Lexeme → Prop :=
  EndsLevel [.arithmetic .sum, .arithmetic .subtract]
    (EndsLevel [.arithmetic .multiply, .arithmetic .divide] EndsCasted)

theorem additive_complete (h : RuleComplete deep EndsExpression nested phrase startsExpression) :
    RuleComplete deep EndsSum (additive nested) (Sum phrase) startsExpression :=
  chain_complete sumOperator_tabulates (by simp [EndsLevel, EndsCasted, EndsTerm])
    (chain_complete productOperator_tabulates (by simp [EndsCasted, EndsTerm]) (casted_complete h))

/-- What can stand behind a comparison. -/
def EndsComparison (l : Lexeme) : Prop :=
  EndsSum l ∧ ∀ op, l ≠ .operator (.relation op)

/-- At most one relation is found, so that none may follow. -/
theorem relation_complete (h : RuleComplete deep EndsExpression nested phrase startsExpression) :
    RuleComplete deep EndsComparison (relation nested) (Comparison phrase) startsExpression where
  finds := by
    intro ts e r r' he hr hfollow
    unfold relation
    cases he with
    | plain hs =>
      refine ((additive_complete h).finds hs hr hfollow.1).bind ?_
      have hnone : relationOperator r'.current.token.lexeme = none := by
        rw [Option.eq_none_iff_forall_ne_some]
        intro op hop
        exact hfollow.2 op (relationOperator_eq_some.1 hop)
      simp only [token_bind, hnone]
      exact .pure _
    | compare hleft hl hright =>
      obtain ⟨r₁, hr₁, hr₂⟩ := hr.append_inv
      obtain ⟨r₂, hop, hr₃⟩ := hr₂.cons_split
      have hnext : EndsSum r₁.current.lexeme := by
        rw [hop.current_eq, hl]
        simp [EndsSum, EndsLevel, EndsCasted, EndsTerm]
      refine ((additive_complete h).finds hleft hr₁ hnext).bind ?_
      have hsome := relationOperator_eq_some.2 hl
      simp only [token_bind, hop.current_eq, hsome]
      exact Yields.bind (.ok (advance_of_reads hop))
        (((additive_complete h).finds_require _ hright hr₃ hfollow.1).bind (.pure _))
  declines := by
    intro r hr
    unfold relation
    rw [bind_of_ok ((additive_complete h).declines hr)]
    rfl

/-- The levels of operators are complete one in the other. -/
theorem disjunction_complete (h : RuleComplete deep EndsExpression nested phrase startsExpression) :
    RuleComplete deep EndsExpression (disjunction nested) (Disjunction phrase)
      startsExpression := by
  have hlevels := chain_complete orOperator_tabulates
    (by simp [EndsLevel, EndsComparison, EndsSum, EndsCasted, EndsTerm])
    (chain_complete andOperator_tabulates
      (by simp [EndsLevel, EndsComparison, EndsSum, EndsCasted, EndsTerm]) (relation_complete h))
  refine hlevels.mono fun {l} hl => ?_
  -- behind an expression there is no operator at all
  have hop : ∀ op, l ≠ .operator op := hl.2
  exact ⟨⟨⟨⟨⟨hl.1, fun op _ => hop op⟩, fun op _ => hop op⟩, fun op => hop _⟩,
    fun op _ => hop op⟩, fun op _ => hop op⟩

end

/-- **Expressions of any depth are found**, or refused if they are nested deeper than allowed. -/
theorem expression_complete (depth n : Nat) :
    RuleComplete (depth < n) EndsExpression (Parser.expression depth) (ExpressionPhrase n)
      startsExpression := by
  induction depth generalizing n with
  | zero =>
    constructor
    · -- nothing may be nested here: what starts an expression is refused
      intro ts e r r' he hr _
      obtain ⟨t, ts', rfl, hfirst⟩ := expression_first n _ _ he
      have hn : 0 < n := Nat.pos_of_ne_zero (by rintro rfl; exact he)
      refine .inr ⟨hn, t.position, ?_⟩
      unfold Parser.expression
      rw [lexeme_bind, hr.current_eq, if_pos hfirst, ← hr.current_eq]
      rfl
    · intro r hr
      unfold Parser.expression
      rw [lexeme_bind, if_neg (by rw [hr]; exact Bool.false_ne_true)]
      rfl
  | succ depth ih =>
    cases n with
    | zero => exact ⟨fun he => he.elim, (disjunction_complete (ih 0)).declines⟩
    | succ n =>
      rw [Nat.succ_lt_succ_iff]
      exact disjunction_complete (ih n)

end FLang
