import FLang.Proofs.Canonical.Words
import FLang.Proofs.Soundness.Expressions

/-!
# The words of an expression derive it again

Tokens that carry the canonical words of an expression derive an expression that differs in
positions only, wherever the line breaks are.

* Every operand of the canonical text is a term or stands in parentheses, so that the tree is found
  again with no regard to how strongly the operators bind (`unary_of_words`);
* what is derived is nested as deep as the canonical text is: if the expression is nested no deeper
  than `n`, then its words derive it at depth `n` (`expression_of_words`).
-/

namespace FLang

open Grammar

/-! ## Expressions -/

/-- A signed term is an expression one level further out. -/
theorem expression_of_unary {n : Nat} {ts : List Lookahead} {e : Expression}
    (h : Unary (ExpressionPhrase n) ts e) : ExpressionPhrase (n + 1) ts e :=
  disjunction_of_casted (.plain h)

/-- Two signed terms with an operator between them are an expression. -/
theorem disjunction_of_binary {phrase : Phrase Expression} {t : Lookahead} {op : BinaryOperator}
    {ts ts' : List Lookahead} {left right : Expression} (hl : t.lexeme = .operator op)
    (hleft : Unary phrase ts left) (hright : Unary phrase ts' right) :
    Disjunction phrase (ts ++ t :: ts') (.binary t.position op left right) := by
  have hproduct : ∀ {us e}, Unary phrase us e → Product phrase us e := fun h => .single (.plain h)
  have hsum : ∀ {us e}, Unary phrase us e → Sum phrase us e := fun h => .single (hproduct h)
  have hcomparison : ∀ {us e}, Unary phrase us e → Comparison phrase us e :=
    fun h => .plain (hsum h)
  have hconjunction : ∀ {us e}, Unary phrase us e → Conjunction phrase us e :=
    fun h => .single (hcomparison h)
  cases op with
  | logical op =>
    cases op with
    | or => exact .more (.single (hconjunction hleft)) hl (by simp) (hconjunction hright)
    | and => exact .single (.more (.single (hcomparison hleft)) hl (by simp) (hcomparison hright))
  | relation op => exact .single (.single (.compare (hsum hleft) hl (hsum hright)))
  | arithmetic op =>
    have hsums : Sum phrase (ts ++ t :: ts') (.binary t.position (.arithmetic op) left right) := by
      cases op with
      | sum => exact .more (.single (hproduct hleft)) hl (by simp) (hproduct hright)
      | subtract => exact .more (.single (hproduct hleft)) hl (by simp) (hproduct hright)
      | multiply => exact .single (.more (.single (.plain hleft)) hl (by simp) (.plain hright))
      | divide => exact .single (.more (.single (.plain hleft)) hl (by simp) (.plain hright))
    exact .single (.single (.plain hsums))

theorem commaWords_cons (first : List Lexeme) (rest : List (List Lexeme)) :
    commaWords (first :: rest) =
      first ++ rest.flatMap fun words => .punctuation .comma :: words := by
  unfold commaWords
  induction rest generalizing first with
  | nil => simp [List.intercalate]
  | cons second rest ih =>
    rw [List.intercalate_cons_cons, ih, List.flatMap_cons, List.append_assoc]
    rfl

/-- Tokens of parenthesized words stand in parentheses. -/
theorem parenthesized_split {us : List Lookahead} {words : List Lexeme}
    (h : us.map Lookahead.lexeme = parenthesized words) :
    ∃ left inner right, us = left :: inner ++ [right] ∧
      left.lexeme = .punctuation .leftParenthesis ∧ inner.map Lookahead.lexeme = words ∧
      right.lexeme = .punctuation .rightParenthesis := by
  obtain ⟨us₁, us₂, rfl, h₁, h₂⟩ := List.map_eq_append_iff.1 h
  obtain ⟨left, inner, rfl, hleft, hinner⟩ := List.map_eq_cons_iff.1 h₁
  obtain ⟨right, us₃, rfl, hright, h₃⟩ := List.map_eq_cons_iff.1 h₂
  obtain rfl := List.map_eq_nil_iff.1 h₃
  exact ⟨left, inner, right, rfl, hleft, hinner, hright⟩

/-- Tokens carry the words of an expression: they derive it, and if it is no negation, as a term. -/
def RederivesExpression (e : Expression) : Prop :=
  ∀ n us, e.nesting ≤ n → us.map Lookahead.lexeme = e.words →
    ∃ e', e'.erase = e.erase ∧ Unary (ExpressionPhrase n) us e' ∧
      (Printer.isNegation e = false → Term (ExpressionPhrase n) us e')

mutual

theorem unary_of_words : ∀ (e : Expression), RederivesExpression e
  | .literal _ value => by
    intro n us _ hus
    rw [Expression.words] at hus
    obtain ⟨t, us', rfl, ht, hnil⟩ := List.map_eq_cons_iff.1 hus
    obtain rfl := List.map_eq_nil_iff.1 hnil
    exact ⟨_, by rw [Expression.erase, Expression.erase], .plain (.literal ht),
      fun _ => .literal ht⟩
  | .variable _ name => by
    intro n us _ hus
    rw [Expression.words] at hus
    obtain ⟨t, us', rfl, ht, hnil⟩ := List.map_eq_cons_iff.1 hus
    obtain rfl := List.map_eq_nil_iff.1 hnil
    exact ⟨_, by rw [Expression.erase, Expression.erase], .plain (.reference ht),
      fun _ => .reference ht⟩
  | .negate _ operand => by
    intro n us hn hus
    rw [Expression.words] at hus
    rw [Expression.nesting] at hn
    obtain ⟨sign, us', rfl, hsign, hus'⟩ := List.map_eq_cons_iff.1 hus
    have hoperand : ∃ e', e'.erase = operand.erase ∧ Term (ExpressionPhrase n) us' e' := by
      by_cases hnegation : Printer.isNegation operand = true
      · -- the inner sign is kept apart by parentheses
        rw [if_pos hnegation] at hn hus'
        obtain ⟨n, rfl⟩ : ∃ m, n = m + 1 := ⟨n - 1, by omega⟩
        obtain ⟨left, inner, right, rfl, hleft, hinner, hright⟩ := parenthesized_split hus'
        obtain ⟨e', herase, hunary, -⟩ :=
          unary_of_words operand n inner (Nat.le_of_succ_le_succ hn) hinner
        exact ⟨e', herase, .parentheses hleft (expression_of_unary hunary) hright⟩
      · rw [if_neg hnegation] at hn hus'
        obtain ⟨e', herase, -, hterm⟩ := unary_of_words operand n us' hn hus'
        exact ⟨e', herase, hterm (Bool.eq_false_iff.2 hnegation)⟩
    obtain ⟨e', herase, hterm⟩ := hoperand
    refine ⟨.negate sign.position e', ?_, .signed (.inl hsign) hterm, nofun⟩
    rw [Expression.erase, Expression.erase, herase]
  | .cast _ operand target => by
    intro n us hn hus
    rw [Expression.words] at hus
    rw [Expression.nesting] at hn
    obtain ⟨n, rfl⟩ : ∃ m, n = m + 1 := ⟨n - 1, by omega⟩
    obtain ⟨left, inner, right, rfl, hleft, hinner, hright⟩ := parenthesized_split hus
    obtain ⟨us₁, us₂, rfl, h₁, h₂⟩ := List.map_eq_append_iff.1 hinner
    obtain ⟨as, us₃, rfl, has, h₃⟩ := List.map_eq_cons_iff.1 h₂
    obtain ⟨type, us₄, rfl, htype, h₄⟩ := List.map_eq_cons_iff.1 h₃
    obtain rfl := List.map_eq_nil_iff.1 h₄
    obtain ⟨e', herase, hunary, -⟩ :=
      unary_of_words operand n us₁ (Nat.le_of_succ_le_succ hn) h₁
    have hterm : Term (ExpressionPhrase (n + 1)) _ (.cast as.position e' target) :=
      .parentheses hleft (disjunction_of_casted (.cast hunary has (.intro htype))) hright
    refine ⟨_, ?_, .plain hterm, fun _ => hterm⟩
    rw [Expression.erase, Expression.erase, herase]
  | .binary _ op left right => by
    intro n us hn hus
    rw [Expression.words] at hus
    rw [Expression.nesting] at hn
    obtain ⟨n, rfl⟩ : ∃ m, n = m + 1 := ⟨n - 1, by omega⟩
    obtain ⟨opening, inner, closing, rfl, hopening, hinner, hclosing⟩ := parenthesized_split hus
    obtain ⟨us₁, us₂, rfl, h₁, h₂⟩ := List.map_eq_append_iff.1 hinner
    obtain ⟨t, us₃, rfl, ht, h₃⟩ := List.map_eq_cons_iff.1 h₂
    have hn := Nat.le_of_succ_le_succ hn
    obtain ⟨left', hleft, hleftUnary, -⟩ :=
      unary_of_words left n us₁ (Nat.le_trans (Nat.le_max_left ..) hn) h₁
    obtain ⟨right', hright, hrightUnary, -⟩ :=
      unary_of_words right n us₃ (Nat.le_trans (Nat.le_max_right ..) hn) h₃
    have hterm : Term (ExpressionPhrase (n + 1)) _ (.binary t.position op left' right') :=
      .parentheses hopening (disjunction_of_binary ht hleftUnary hrightUnary) hclosing
    refine ⟨_, ?_, .plain hterm, fun _ => hterm⟩
    rw [Expression.erase, Expression.erase, hleft, hright]
  | .call _ name arguments => by
    intro n us hn hus
    rw [Expression.words, callWords] at hus
    rw [Expression.nesting] at hn
    obtain ⟨t, us', rfl, ht, hus'⟩ := List.map_eq_cons_iff.1 hus
    obtain ⟨left, inner, right, rfl, hleft, hinner, hright⟩ := parenthesized_split hus'
    obtain ⟨es, herase, hes⟩ := arguments_of_words arguments n inner hn hinner
    have hterm : Term (ExpressionPhrase n) _ (.call t.position name es) :=
      .call ht (.intro hleft hes hright)
    refine ⟨_, ?_, .plain hterm, fun _ => hterm⟩
    rw [Expression.erase, Expression.erase, herase]

theorem arguments_of_words : ∀ (es : List Expression) (n : Nat) (us : List Lookahead),
    Expression.nestingOf es ≤ n →
    us.map Lookahead.lexeme = commaWords (Expression.wordsOf es) →
    ∃ es', Expression.eraseAll es' = Expression.eraseAll es ∧
      ArgumentList (ExpressionPhrase n) us es'
  | [], n, us, _, hus => by
    rw [Expression.wordsOf] at hus
    obtain rfl := List.map_eq_nil_iff.1 hus
    exact ⟨[], rfl, .none⟩
  | first :: rest, n, us, hn, hus => by
    rw [Expression.nestingOf] at hn
    rw [Expression.wordsOf, commaWords_cons] at hus
    obtain ⟨us₁, us₂, rfl, h₁, h₂⟩ := List.map_eq_append_iff.1 hus
    obtain ⟨n, rfl⟩ : ∃ m, n = m + 1 := ⟨n - 1, by omega⟩
    obtain ⟨e', herase, hunary, -⟩ := unary_of_words first n us₁ (by omega) h₁
    obtain ⟨es', herases, hes⟩ := moreArguments_of_words rest (n + 1) us₂ (by omega) h₂
    refine ⟨e' :: es', ?_, .some (expression_of_unary hunary) hes⟩
    rw [Expression.eraseAll, Expression.eraseAll, herase, herases]

theorem moreArguments_of_words : ∀ (es : List Expression) (n : Nat) (us : List Lookahead),
    Expression.nestingOf es ≤ n →
    us.map Lookahead.lexeme =
      (Expression.wordsOf es).flatMap (fun words => .punctuation .comma :: words) →
    ∃ es', Expression.eraseAll es' = Expression.eraseAll es ∧
      AfterCommas (ExpressionPhrase n) us es'
  | [], n, us, _, hus => by
    rw [Expression.wordsOf] at hus
    obtain rfl := List.map_eq_nil_iff.1 hus
    exact ⟨[], rfl, .nil⟩
  | first :: rest, n, us, hn, hus => by
    rw [Expression.nestingOf] at hn
    rw [Expression.wordsOf, List.flatMap_cons] at hus
    obtain ⟨us₁, us₂, rfl, h₁, h₂⟩ := List.map_eq_append_iff.1 hus
    obtain ⟨comma, us₃, rfl, hcomma, h₃⟩ := List.map_eq_cons_iff.1 h₁
    obtain ⟨n, rfl⟩ : ∃ m, n = m + 1 := ⟨n - 1, by omega⟩
    obtain ⟨e', herase, hunary, -⟩ := unary_of_words first n us₃ (by omega) h₃
    obtain ⟨es', herases, hes⟩ := moreArguments_of_words rest (n + 1) us₂ (by omega) h₂
    refine ⟨e' :: es', ?_, .cons hcomma (expression_of_unary hunary) hes⟩
    rw [Expression.eraseAll, Expression.eraseAll, herase, herases]

end

/-- **The words of an expression derive it again.** -/
theorem expression_of_words {e : Expression} {n : Nat} {us : List Lookahead}
    (hn : e.nesting + 1 ≤ n) (hus : us.map Lookahead.lexeme = e.words) :
    ∃ e', e'.erase = e.erase ∧ ExpressionPhrase n us e' := by
  obtain ⟨n, rfl⟩ : ∃ m, n = m + 1 := ⟨n - 1, by omega⟩
  obtain ⟨e', herase, hunary, -⟩ := unary_of_words e n us (Nat.le_of_succ_le_succ hn) hus
  exact ⟨e', herase, expression_of_unary hunary⟩

end FLang
