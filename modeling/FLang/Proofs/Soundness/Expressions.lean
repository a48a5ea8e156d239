import FLang.Proofs.Soundness.Rules

/-!
# Expressions are built as the grammar derives them

Each rule for expressions is sound if the rule for nested expressions is; soundness of
`Parser.expression` is then an induction on its depth. The lexemes that expressions start with are
those of `startsExpression` and no others.
-/

namespace FLang

open Grammar Parse FLang.Parser

variable {α : Type}

/-! ## Terms, signs and casts -/

section
variable {nested : Parse (Option Expression)} {phrase : Phrase Expression}

/-- The arguments of a call are built as the grammar has them. -/
theorem builds_argumentList (h : RuleSound nested phrase startsExpression) (name : String) :
    Builds (argumentList nested name) (ArgumentList phrase) := by
  intro r a r' hr
  unfold argumentList at hr
  obtain ⟨x, r₁, hx, hk⟩ := bind_eq_ok.1 hr
  cases x with
  | none =>
    obtain ⟨rfl, -⟩ := h.declined hx
    obtain ⟨rfl, rfl⟩ := pure_eq_ok.1 hk
    exact ⟨[], .nil, .none⟩
  | some e =>
    obtain ⟨es, r₂, hes, hk⟩ := bind_eq_ok.1 hk
    obtain ⟨rfl, rfl⟩ := pure_eq_ok.1 hk
    obtain ⟨ts, hts, he⟩ := h.built hx
    obtain ⟨ts', hts', hes⟩ := builds_moreAfterCommas (h.builds_require _) hes
    exact ⟨ts ++ ts', hts.append hts', .some he hes⟩

/-- Whether a lexeme is this mark. -/
def isMark (mark : Punctuation) (lexeme : Lexeme) : Bool :=
  lexeme = .punctuation mark

/-- Arguments in parentheses are built, or the rule declines where there is no parenthesis. -/
theorem callArguments_sound (h : RuleSound nested phrase startsExpression) (name : String) :
    RuleSound (callArguments nested name) (CallArguments phrase) (isMark .leftParenthesis) where
  built := by
    intro r a r' hr
    unfold callArguments at hr
    obtain ⟨b, r₁, hb, hk⟩ := bind_eq_ok.1 hr
    rcases accept_inv hb with ⟨rfl, hl, hleft⟩ | ⟨rfl, -, -⟩
    · obtain ⟨es, r₂, hes, hk⟩ := bind_eq_ok.1 hk
      obtain ⟨u, r₃, hclose, hk⟩ := bind_eq_ok.1 hk
      obtain ⟨rfl, rfl⟩ := pure_some_inv hk
      obtain ⟨ts, hts, hes⟩ := builds_argumentList h name hes
      obtain ⟨hr, hright⟩ := expect_inv hclose
      exact ⟨_, (hleft.append hts).append hright, .intro hl hes hr⟩
    · exact absurd hk pure_none_ne_some
  declined := by
    intro r r' hr
    unfold callArguments at hr
    obtain ⟨b, r₁, hb, hk⟩ := bind_eq_ok.1 hr
    rcases accept_inv hb with ⟨rfl, -, -⟩ | ⟨rfl, hl, rfl⟩
    · exact not_declined hk (.bind fun _ => .bind fun _ => .pure _)
    · obtain ⟨-, rfl⟩ := pure_eq_ok.1 hk
      exact ⟨rfl, decide_eq_false hl⟩

/-- A term is built, or the rule declines at what starts none. -/
theorem term_sound (h : RuleSound nested phrase startsExpression) :
    RuleSound (term nested) (Term phrase) startsTerm where
  built := by
    intro r a r' hr
    unfold term at hr
    rw [token_bind] at hr
    generalize hl : r.current.token.lexeme = l at hr
    split at hr
    · -- a constant
      obtain ⟨u, r₁, hadv, hk⟩ := bind_eq_ok.1 hr
      obtain ⟨rfl, rfl⟩ := pure_some_inv hk
      exact ⟨_, reads_of_advance (by simp [hl]) hadv, .literal hl⟩
    · -- a variable or a call
      obtain ⟨u, r₁, hadv, hk⟩ := bind_eq_ok.1 hr
      obtain ⟨x, r₂, hx, hx'⟩ := bind_eq_ok.1 hk
      have hname := reads_of_advance (by simp [hl]) hadv
      cases x with
      | none =>
        obtain ⟨rfl, -⟩ := (callArguments_sound h _).declined hx
        obtain ⟨rfl, rfl⟩ := pure_some_inv hx'
        exact ⟨_, hname, .reference hl⟩
      | some es =>
        obtain ⟨ts, hts, hes⟩ := (callArguments_sound h _).built hx
        obtain ⟨rfl, rfl⟩ := pure_some_inv hx'
        exact ⟨_, hname.append hts, .call hl hes⟩
    · -- an expression in parentheses
      obtain ⟨u, r₁, hadv, hk⟩ := bind_eq_ok.1 hr
      obtain ⟨e, r₂, he, hk⟩ := bind_eq_ok.1 hk
      obtain ⟨u', r₃, hclose, hk⟩ := bind_eq_ok.1 hk
      obtain ⟨rfl, rfl⟩ := pure_some_inv hk
      have hleft := reads_of_advance (by simp [hl]) hadv
      obtain ⟨ts, hts, he⟩ := h.builds_require _ he
      obtain ⟨hr, hright⟩ := expect_inv hclose
      exact ⟨_, (hleft.append hts).append hright, .parentheses hl he hr⟩
    · exact absurd hr pure_none_ne_some
  declined := by
    intro r r' hr
    unfold term at hr
    rw [token_bind] at hr
    generalize hl : r.current.token.lexeme = l at hr
    split at hr
    · exact not_declined hr (.bind fun _ => .pure _)
    · refine not_declined hr (.bind fun _ => .bind fun x => ?_)
      cases x <;> exact .pure _
    · exact not_declined hr (.bind fun _ => .bind fun _ => .bind fun _ => .pure _)
    · next h₁ h₂ h₃ =>
      obtain ⟨-, rfl⟩ := pure_eq_ok.1 hr
      refine ⟨rfl, ?_⟩
      rw [Lookahead.lexeme, hl]
      unfold startsTerm
      split
      · exact absurd rfl (h₁ _)
      · exact absurd rfl (h₂ _)
      · exact absurd rfl h₃
      · rfl

theorem isSign_eq_true {l : Lexeme} :
    isSign l = true ↔ l = .operator (.arithmetic .subtract) ∨ l = .negation := by
  simp [isSign]

/-- A sign and its operand are built, or the operand alone. -/
theorem unary_sound (h : RuleSound nested phrase startsExpression) :
    RuleSound (unary nested) (Unary phrase) startsExpression where
  built := by
    intro r a r' hr
    unfold unary at hr
    rw [token_bind] at hr
    split at hr
    · next hs =>
      have hsign := isSign_eq_true.1 hs
      obtain ⟨u, r₁, hadv, hk⟩ := bind_eq_ok.1 hr
      obtain ⟨e, r₂, he, hk⟩ := bind_eq_ok.1 hk
      obtain ⟨rfl, rfl⟩ := pure_some_inv hk
      have hread := reads_of_advance (by rcases hsign with h | h <;> simp [h]) hadv
      obtain ⟨ts, hts, he⟩ := (term_sound h).builds_require _ he
      exact ⟨_, hread.append hts, .signed hsign he⟩
    · obtain ⟨ts, hts, he⟩ := (term_sound h).built hr
      exact ⟨ts, hts, .plain he⟩
  declined := by
    intro r r' hr
    unfold unary at hr
    rw [token_bind] at hr
    split at hr
    · exact not_declined hr (.bind fun _ => .bind fun _ => .pure _)
    · next hs =>
      obtain ⟨rfl, ht⟩ := (term_sound h).declined hr
      exact ⟨rfl, by simp [startsExpression, hs, ht]⟩

/-- A cast is built if its keyword follows, and the operand alone otherwise. -/
theorem casted_sound (h : RuleSound nested phrase startsExpression) :
    RuleSound (casted nested) (Casted phrase) startsExpression where
  built := by
    intro r a r' hr
    unfold casted at hr
    obtain ⟨x, r₁, hx, hk⟩ := bind_eq_ok.1 hr
    cases x with
    | none => exact absurd hk pure_none_ne_some
    | some e =>
      obtain ⟨ts, hts, he⟩ := (unary_sound h).built hx
      simp only [token_bind] at hk
      obtain ⟨b, r₂, hb, hk⟩ := bind_eq_ok.1 hk
      rcases acceptKeyword_inv hb with ⟨rfl, hl, has⟩ | ⟨rfl, -, rfl⟩
      · obtain ⟨type, r₃, htype, hk⟩ := bind_eq_ok.1 hk
        obtain ⟨rfl, rfl⟩ := pure_some_inv hk
        obtain ⟨ts', hts', htype⟩ := typeAnnotation_sound.builds_require _ htype
        exact ⟨_, hts.append (has.append hts'), .cast he hl htype⟩
      · obtain ⟨rfl, rfl⟩ := pure_some_inv hk
        exact ⟨ts, hts, .plain he⟩
  declined := by
    intro r r' hr
    unfold casted at hr
    obtain ⟨x, r₁, hx, hk⟩ := bind_eq_ok.1 hr
    cases x with
    | none =>
      obtain ⟨-, rfl⟩ := pure_eq_ok.1 hk
      exact (unary_sound h).declined hx
    | some e =>
      simp only [token_bind] at hk
      -- behind an operand, the rule has found something
      refine not_declined hk (.bind fun b => ?_)
      split
      · exact .bind fun _ => .pure _
      · exact .pure _

end

/-! ## Levels of operators -/

/-- A table of operators knows exactly the lexemes of some operators. -/
def Tabulates (operatorOf : Lexeme → Option BinaryOperator) (ops : List BinaryOperator) : Prop :=
  ∀ l op, operatorOf l = some op ↔ l = .operator op ∧ op ∈ ops

/-- The operators of products are these two. -/
theorem productOperator_tabulates :
    Tabulates productOperator [.arithmetic .multiply, .arithmetic .divide] := by
  intro l op
  unfold productOperator
  split <;> grind

theorem sumOperator_tabulates :
    Tabulates sumOperator [.arithmetic .sum, .arithmetic .subtract] := by
  intro l op
  unfold sumOperator
  split <;> grind

theorem andOperator_tabulates : Tabulates andOperator [.logical .and] := by
  intro l op
  unfold andOperator
  split <;> grind

theorem orOperator_tabulates : Tabulates orOperator [.logical .or] := by
  intro l op
  unfold orOperator
  split <;> grind

/-- A relation is read from its own symbol only. -/
@[simp] theorem relationOperator_eq_some {l : Lexeme} {op : Relation} :
    relationOperator l = some op ↔ l = .operator (.relation op) := by
  unfold relationOperator
  split <;> grind

section
variable {operatorOf : Lexeme → Option BinaryOperator} {ops : List BinaryOperator}
  {operand : Parse (Option Expression)} {phrase : Phrase Expression}

/-- What stands before the loop of a level and what the loop reads make up one phrase. -/
theorem chainFrom_sound (htable : Tabulates operatorOf ops)
    (h : RuleSound operand phrase startsExpression) :
    ∀ (fuel : Nat) {start r r' : Reader} {ts : List Lookahead} {left e : Expression},
      Reads start ts r → LeftAssociative ops phrase ts left →
      chainFrom operatorOf operand fuel left r = .ok (e, r') →
      ∃ ts', Reads start ts' r' ∧ LeftAssociative ops phrase ts' e := by
  intro fuel
  induction fuel with
  | zero =>
    intro start r r' ts left e hts hleft hr
    obtain ⟨rfl, rfl⟩ := pure_eq_ok.1 hr
    exact ⟨ts, hts, hleft⟩
  | succ fuel ih =>
    intro start r r' ts left e hts hleft hr
    unfold chainFrom at hr
    rw [token_bind] at hr
    generalize hop : operatorOf r.current.token.lexeme = found at hr
    cases found with
    | none =>
      obtain ⟨rfl, rfl⟩ := pure_eq_ok.1 hr
      exact ⟨ts, hts, hleft⟩
    | some op =>
      obtain ⟨hl, hmem⟩ := (htable _ _).1 hop
      obtain ⟨u, r₁, hadv, hk⟩ := bind_eq_ok.1 hr
      obtain ⟨right, r₂, hright, hk⟩ := bind_eq_ok.1 hk
      have hread := reads_of_advance (by simp [hl]) hadv
      obtain ⟨ts', hts', hright⟩ := h.builds_require _ hright
      exact ih (hts.append (hread.append hts')) (.more hleft hl hmem hright) hk

/-- A level of operators is built from the left, operand by operand. -/
theorem chain_sound (htable : Tabulates operatorOf ops)
    (h : RuleSound operand phrase startsExpression) :
    RuleSound (chain operatorOf operand) (LeftAssociative ops phrase) startsExpression where
  built := by
    intro r a r' hr
    unfold chain at hr
    obtain ⟨x, r₁, hx, hk⟩ := bind_eq_ok.1 hr
    cases x with
    | none => exact absurd hk pure_none_ne_some
    | some left =>
      obtain ⟨ts, hts, hleft⟩ := h.built hx
      simp only [budget_bind] at hk
      obtain ⟨e, r₂, he, hk⟩ := bind_eq_ok.1 hk
      obtain ⟨rfl, rfl⟩ := pure_some_inv hk
      exact chainFrom_sound htable h _ hts (.single hleft) he
  declined := by
    intro r r' hr
    unfold chain at hr
    obtain ⟨x, r₁, hx, hk⟩ := bind_eq_ok.1 hr
    cases x with
    | none =>
      obtain ⟨-, rfl⟩ := pure_eq_ok.1 hk
      exact h.declined hx
    | some left => exact not_declined hk (.bind fun _ => .bind fun _ => .pure _)

end

section
variable {nested : Parse (Option Expression)} {phrase : Phrase Expression}

theorem additive_sound (h : RuleSound nested phrase startsExpression) :
    RuleSound (additive nested) (Sum phrase) startsExpression :=
  chain_sound sumOperator_tabulates (chain_sound productOperator_tabulates (casted_sound h))

/-- A relation is built if its operator follows, and one side alone otherwise. -/
theorem relation_sound (h : RuleSound nested phrase startsExpression) :
    RuleSound (relation nested) (Comparison phrase) startsExpression where
  built := by
    intro r a r' hr
    unfold relation at hr
    obtain ⟨x, r₁, hx, hk⟩ := bind_eq_ok.1 hr
    cases x with
    | none => exact absurd hk pure_none_ne_some
    | some left =>
      obtain ⟨ts, hts, hleft⟩ := (additive_sound h).built hx
      simp only [token_bind] at hk
      generalize hop : relationOperator r₁.current.token.lexeme = found at hk
      cases found with
      | none =>
        obtain ⟨rfl, rfl⟩ := pure_some_inv hk
        exact ⟨ts, hts, .plain hleft⟩
      | some op =>
        have hl := relationOperator_eq_some.1 hop
        obtain ⟨u, r₂, hadv, hk⟩ := bind_eq_ok.1 hk
        obtain ⟨right, r₃, hright, hk⟩ := bind_eq_ok.1 hk
        obtain ⟨rfl, rfl⟩ := pure_some_inv hk
        have hread := reads_of_advance (by simp [hl]) hadv
        obtain ⟨ts', hts', hright⟩ := (additive_sound h).builds_require _ hright
        exact ⟨_, hts.append (hread.append hts'), .compare hleft hl hright⟩
  declined := by
    intro r r' hr
    unfold relation at hr
    obtain ⟨x, r₁, hx, hk⟩ := bind_eq_ok.1 hr
    cases x with
    | none =>
      obtain ⟨-, rfl⟩ := pure_eq_ok.1 hk
      exact (additive_sound h).declined hx
    | some left =>
      simp only [token_bind] at hk
      generalize relationOperator r₁.current.token.lexeme = found at hk
      cases found with
      | none => exact not_declined hk (.pure _)
      | some op => exact not_declined hk (.bind fun _ => .bind fun _ => .pure _)

/-- The levels of operators are sound one in the other. -/
theorem disjunction_sound (h : RuleSound nested phrase startsExpression) :
    RuleSound (disjunction nested) (Disjunction phrase) startsExpression :=
  chain_sound orOperator_tabulates (chain_sound andOperator_tabulates (relation_sound h))

end

/-- Expressions are built only as phrases of their depth, or of a greater one. -/
theorem expression_sound_of_le {depth n : Nat} (h : depth ≤ n) :
    RuleSound (Parser.expression depth) (ExpressionPhrase n) startsExpression := by
  induction depth generalizing n with
  | zero =>
    constructor
    · intro r a r' hr
      unfold Parser.expression at hr
      rw [lexeme_bind] at hr
      split at hr
      · exact absurd hr fail_ne_ok
      · exact absurd hr pure_none_ne_some
    · intro r r' hr
      unfold Parser.expression at hr
      rw [lexeme_bind] at hr
      split at hr
      · exact absurd hr fail_ne_ok
      · next hs =>
        obtain ⟨-, rfl⟩ := pure_eq_ok.1 hr
        exact ⟨rfl, Bool.eq_false_iff.2 hs⟩
  | succ depth ih =>
    obtain ⟨n, rfl⟩ := Nat.exists_eq_succ_of_ne_zero (Nat.ne_zero_of_lt h)
    exact disjunction_sound (ih (Nat.le_of_succ_le_succ h))

/-- **What is built for an expression is derived from the tokens that were read**, at every
depth. -/
theorem expression_sound (depth : Nat) :
    RuleSound (Parser.expression depth) (ExpressionPhrase depth) startsExpression :=
  expression_sound_of_le (Nat.le_refl depth)

/-! ## First tokens

`startsExpression` is exactly the set of lexemes that expressions of the grammar start with. -/

/-- Every phrase starts with one of some lexemes. -/
def FirstIn (first : Lexeme → Bool) (phrase : Phrase α) : Prop :=
  ∀ ts a, phrase ts a → ∃ t ts', ts = t :: ts' ∧ first t.lexeme = true

section
variable {phrase : Phrase Expression}

/-- A term starts with a constant, a name or a parenthesis. -/
theorem term_first : FirstIn startsTerm (Term phrase) := by
  intro ts e h
  cases h with
  | literal hl => exact ⟨_, _, rfl, by rw [hl]; rfl⟩
  | reference hl => exact ⟨_, _, rfl, by rw [hl]; rfl⟩
  | call hl _ => exact ⟨_, _, rfl, by rw [hl]; rfl⟩
  | parentheses hl _ _ => exact ⟨_, _, rfl, by rw [hl]; rfl⟩

/-- A sign starts an expression, too. -/
theorem unary_first : FirstIn startsExpression (Unary phrase) := by
  intro ts e h
  cases h with
  | plain ht =>
    obtain ⟨t, ts', rfl, hf⟩ := term_first _ _ ht
    exact ⟨t, ts', rfl, by rw [startsExpression, hf, Bool.or_true]⟩
  | signed hs _ => exact ⟨_, _, rfl, by rw [startsExpression, isSign_eq_true.2 hs, Bool.true_or]⟩

theorem casted_first : FirstIn startsExpression (Casted phrase) := by
  intro ts e h
  cases h with
  | plain hu => exact unary_first _ _ hu
  | cast hu _ _ =>
    obtain ⟨t, ts', rfl, hf⟩ := unary_first _ _ hu
    exact ⟨t, _, rfl, hf⟩

/-- A chain starts as its first operand does. -/
theorem leftAssociative_first {first : Lexeme → Bool} {ops : List BinaryOperator}
    (hp : FirstIn first phrase) : FirstIn first (LeftAssociative ops phrase) := by
  intro ts e h
  induction h with
  | single ho => exact hp _ _ ho
  | more _ _ _ _ ih =>
    obtain ⟨t, ts', rfl, hf⟩ := ih
    exact ⟨t, _, rfl, hf⟩

theorem sum_first : FirstIn startsExpression (Sum phrase) :=
  leftAssociative_first (leftAssociative_first casted_first)

theorem comparison_first : FirstIn startsExpression (Comparison phrase) := by
  intro ts e h
  cases h with
  | plain hs => exact sum_first _ _ hs
  | compare hs _ _ =>
    obtain ⟨t, ts', rfl, hf⟩ := sum_first _ _ hs
    exact ⟨t, _, rfl, hf⟩

/-- An expression starts with a token that starts expressions, at every depth. -/
theorem expression_first (depth : Nat) : FirstIn startsExpression (ExpressionPhrase depth) := by
  cases depth with
  | zero => intro ts e h; cases h
  | succ depth => exact leftAssociative_first (leftAssociative_first comparison_first)

/-- A casted term is an expression by itself. -/
theorem disjunction_of_casted {ts : List Lookahead} {e : Expression} (h : Casted phrase ts e) :
    Disjunction phrase ts e :=
  .single (.single (.plain (.single (.single h))))

/-- A term is an expression of every level. -/
theorem disjunction_of_term {ts : List Lookahead} {e : Expression} (h : Term phrase ts e) :
    Disjunction phrase ts e :=
  disjunction_of_casted (.plain (.plain h))

end

/-- The tokens that can start an expression, by their lexemes. -/
theorem startsExpression_iff {t : Lookahead} :
    StartsExpression t ↔ startsExpression t.lexeme = true := by
  constructor
  · rintro ⟨depth, ts, e, h⟩
    obtain ⟨t', ts', hts, hf⟩ := expression_first depth _ _ h
    obtain ⟨rfl, -⟩ := List.cons.inj hts
    exact hf
  · intro h
    -- what is missing of the expression is a constant and a parenthesis
    let one : Lookahead := ⟨⟨.constant (.bool true), t.position⟩, false⟩
    let right : Lookahead := ⟨⟨.punctuation .rightParenthesis, t.position⟩, false⟩
    have hone : ∀ {phrase}, Term phrase [one] (.literal t.position (.bool true)) := .literal rfl
    rw [startsExpression, Bool.or_eq_true] at h
    rcases h with h | h
    · exact ⟨1, [one], _,
        disjunction_of_casted (.plain (.signed (isSign_eq_true.1 h) hone))⟩
    · generalize hl : t.lexeme = l at h
      unfold startsTerm at h
      split at h
      · exact ⟨1, [], _, disjunction_of_term (.literal hl)⟩
      · exact ⟨1, [], _, disjunction_of_term (.reference hl)⟩
      · have hright : Term (ExpressionPhrase 1) (t :: [one] ++ [right]) _ :=
          .parentheses hl (disjunction_of_term hone) rfl
        exact ⟨2, [one, right], _, disjunction_of_term hright⟩
      · cases h

end FLang
