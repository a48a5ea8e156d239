import Mathlib
import FLang.Proofs.Grammar

/-!
# The tokens of a phrase

The end of the input stands behind a program and never inside one: no phrase of the grammar has a
token that is the end of the input (`Inner`). One lemma per nonterminal; `inner_functionList` is the
result for programs.
-/

namespace FLang.Grammar

/-- No token of a phrase is the end of the input. -/
def Inner {α : Type} (phrase : Phrase α) : Prop :=
  ∀ ⦃ts : List Lookahead⦄ ⦃a : α⦄, phrase ts a → ∀ t ∈ ts, t.lexeme ≠ .endOfInput

/-- Neither commas nor the items behind them are the end of the input. -/
theorem inner_afterCommas {α : Type} {item : Phrase α} (h : Inner item) :
    Inner (AfterCommas item) := by
  intro ts xs hxs
  induction hxs with
  | nil => simp
  | cons hcomma hx _ ih => simpa [or_imp, forall_and, hcomma] using ⟨h hx, ih⟩

theorem inner_name : Inner Name := by
  rintro ts a ⟨hl⟩
  simp [hl]

theorem inner_typeName : Inner TypeName := by
  rintro ts a ⟨hl⟩
  simp [hl]

section
variable {nested : Phrase Expression}

/-- Parentheses and arguments are not the end of the input. -/
theorem inner_callArguments (h : Inner nested) : Inner (CallArguments nested) := by
  rintro _ _ ⟨hleft, hes, hright⟩
  cases hes with
  | none => simp [hleft, hright]
  | some he hes =>
    simpa [or_imp, forall_and, hleft, hright] using ⟨h he, inner_afterCommas h hes⟩

/-- No token of a term is the end of the input: each is a constant, a name or a mark. -/
theorem inner_term (h : Inner nested) : Inner (Term nested) := by
  intro ts e he
  cases he with
  | literal hl => simp [hl]
  | reference hl => simp [hl]
  | call hl hes => simpa [hl] using inner_callArguments h hes
  | parentheses hleft he hright => simpa [or_imp, forall_and, hleft, hright] using h he

theorem inner_unary (h : Inner nested) : Inner (Unary nested) := by
  intro ts e he
  cases he with
  | plain he => exact inner_term h he
  | signed hsign he =>
    have hne : ∀ l : Lexeme, l = .operator (.arithmetic .subtract) ∨ l = .negation →
        l ≠ .endOfInput := by
      rintro l (rfl | rfl) <;> simp
    simpa [hne _ hsign] using inner_term h he

theorem inner_casted (h : Inner nested) : Inner (Casted nested) := by
  intro ts e he
  cases he with
  | plain he => exact inner_unary h he
  | cast he has htype =>
    simpa [or_imp, forall_and, has] using ⟨inner_unary h he, inner_typeName htype⟩

/-- Operators are not the end of the input, and neither are the tokens of their operands. -/
theorem inner_leftAssociative {ops : List BinaryOperator} (h : Inner nested) :
    Inner (LeftAssociative ops nested) := by
  intro ts e he
  induction he with
  | single he => exact h he
  | more _ hl _ he ih => simpa [or_imp, forall_and, hl] using ⟨ih, h he⟩

theorem inner_comparison (h : Inner nested) : Inner (Comparison nested) := by
  have hsum : Inner (Grammar.Sum nested) :=
    inner_leftAssociative (inner_leftAssociative (inner_casted h))
  intro ts e he
  cases he with
  | plain he => exact hsum he
  | compare hleft hl hright => simpa [or_imp, forall_and, hl] using ⟨hsum hleft, hsum hright⟩

/-- **No token of an expression is the end of the input**, at every depth. -/
theorem inner_expression (depth : Nat) : Inner (ExpressionPhrase depth) := by
  induction depth with
  | zero => exact fun _ _ h => h.elim
  | succ depth ih => exact inner_leftAssociative (inner_leftAssociative (inner_comparison ih))

end

section
variable {E : Phrase Expression} {B : Phrase Block}

theorem inner_declaration (h : Inner E) : Inner (DeclarationPhrase E) := by
  rintro _ _ ⟨htype, hname, hdeclare, he⟩
  simpa [or_imp, forall_and, hdeclare] using ⟨inner_typeName htype, inner_name hname, h he⟩

theorem inner_output (h : Inner E) (hB : Inner B) : Inner (OutputPhrase E B) := by
  intro ts output houtput
  cases houtput with
  | expression he => exact h he
  | block hb => exact hB hb

/-- A relation in front of a test is not the end of the input. -/
theorem inner_caseTest (h : Inner E) : Inner (CaseTest E) := by
  intro ts test htest
  cases htest with
  | compared hl he => simpa [hl] using h he
  | plain he => exact h he

/-- A case holds a test or `default`, an arrow and what it does. -/
theorem inner_case (h : Inner E) (hB : Inner B) : Inner (CasePhrase E B) := by
  intro ts c hc
  cases hc with
  | fallback hl harrow houtput => simpa [hl, harrow] using inner_output h hB houtput
  | test htest harrow houtput =>
    have htokens := inner_caseTest h htest
    simpa [or_imp, forall_and, harrow] using
      ⟨htokens _ (by simp), fun t ht => htokens t (by simp [ht]), inner_output h hB houtput⟩

theorem inner_caseList (h : Inner E) (hB : Inner B) : Inner (CaseList E B) := by
  rintro _ _ ⟨hleft, hc, hcs, hright⟩
  simpa [or_imp, forall_and, hleft, hright] using
    ⟨inner_case h hB hc, inner_afterCommas (inner_case h hB) hcs⟩

/-- The head of a choice holds declarations or an expression. -/
theorem inner_choiceHead (h : Inner E) : Inner (ChoiceHead E) := by
  intro ts head hhead
  cases hhead with
  | guards hd hds =>
    simpa [or_imp, forall_and] using
      ⟨inner_declaration h hd, inner_afterCommas (inner_declaration h) hds⟩
  | subject he => exact h he
  | bare => simp

/-- No token of a statement is the end of the input, one case for each statement. -/
theorem inner_statement (h : Inner E) (hB : Inner B) (next : Lookahead) :
    Inner (StatementPhrase E B next) := by
  intro ts s hs
  cases hs with
  | declaration hd => exact inner_declaration h hd
  | assignment hname hassign he => simpa [hname, hassign] using h he
  | call hname hes => simpa [hname] using inner_callArguments h hes
  | conditional hl he hb => simpa [or_imp, forall_and, hl] using ⟨h he, hB hb⟩
  | alternative hl he hb helse hb' =>
    simpa [or_imp, forall_and, hl, helse] using ⟨h he, hB hb, hB hb'⟩
  | loop hl he hb => simpa [or_imp, forall_and, hl] using ⟨h he, hB hb⟩
  | choice hl hhead hcs =>
    simpa [or_imp, forall_and, hl] using ⟨inner_choiceHead h hhead, inner_caseList h hB hcs⟩
  | value hl _ he => simpa [hl] using h he
  | noValue hl _ => simp [hl]

/-- The tokens of statements are those of each of them. -/
theorem inner_statementList (h : Inner E) (hB : Inner B) (last : Lookahead) :
    Inner (StatementList E B last) := by
  intro ts ss hss
  induction hss with
  | nil => simp
  | cons hs _ ih => simpa [or_imp, forall_and] using ⟨inner_statement h hB _ hs, ih⟩

/-- Braces are not the end of the input. -/
theorem inner_braced (h : Inner E) (hB : Inner B) : Inner (Braced E B) := by
  rintro _ _ ⟨hleft, hss, hright⟩
  simpa [or_imp, forall_and, hleft, hright] using inner_statementList h hB _ hss

end

/-- **No token of a block is the end of the input**, at every depth. -/
theorem inner_block (depth : Nat) : Inner (BlockPhrase depth) := by
  induction depth with
  | zero => exact fun _ _ h => h.elim
  | succ depth ih => exact inner_braced (inner_expression depth) ih

theorem inner_parameterGroup : Inner ParameterGroup := by
  rintro _ _ ⟨hname, hnames, htype⟩
  simpa [or_imp, forall_and] using
    ⟨inner_name hname, inner_afterCommas inner_name hnames, inner_typeName htype⟩

/-- A function holds its name, its parameters, its type and its body. -/
theorem inner_function {B : Phrase Block} (hB : Inner B) : Inner (FunctionPhrase B) := by
  rintro _ _ ⟨hname, hleft, hps, hright, htype, hbody⟩
  have hparameters : Inner ParameterList := by
    intro ts ps hps
    cases hps with
    | none => simp
    | some hgroup hgroups =>
      simpa [or_imp, forall_and] using
        ⟨inner_parameterGroup hgroup, inner_afterCommas inner_parameterGroup hgroups⟩
  have hreturn : Inner ReturnType := by
    intro ts type htype
    cases htype with
    | none => simp
    | some htype => exact inner_typeName htype
  simpa [or_imp, forall_and, hname, hleft, hright] using
    ⟨hparameters hps, hreturn htype, hB hbody⟩

/-- **No token of a program is the end of the input.** -/
theorem inner_functionList {B : Phrase Block} (hB : Inner B) : Inner (FunctionList B) := by
  intro ts fs hfs
  induction hfs with
  | nil => simp
  | cons hf _ ih => simpa [or_imp, forall_and] using ⟨inner_function hB hf, ih⟩

end FLang.Grammar
