import FLang.Proofs.Prefixes.Scanning

/-!
# Rules decide by their first token

A rule of the parser that may decline does so by the token under the reader alone: it declines
exactly where none of its first lexemes stands, and leaves the reader as it is. If it does not
decline, it fails or has consumed a token (`Decides`). So the callers of a rule may take "nothing"
for "not here", and a loop over a rule makes progress.

`rulesDecide` says so for every rule at once: soundness shows that a rule declines nowhere else and
that it has read what it builds, completeness that it declines there.
-/

namespace FLang

open Grammar Parse FLang.Parser

variable {α : Type} {deep : Prop}

/-- A rule declines exactly where none of some lexemes stands, without moving the reader, and
consumes a token for what it builds. -/
structure Decides (first : Lexeme → Bool) (rule : Parse (Option α)) : Prop where
  /-- Where nothing is built. -/
  declines_iff : ∀ r : Reader, (∃ r', rule r = .ok (none, r')) ↔ first r.current.lexeme = false
  /-- The reader has not moved where nothing is built. -/
  unmoved : ∀ r r' : Reader, rule r = .ok (none, r') → r' = r
  /-- A token is consumed where something is built. -/
  consumed : ∀ (r : Reader) (a : α) (r' : Reader), rule r = .ok (some a, r') →
    ∃ t ts, Reads r (t :: ts) r'

/-- A rule that is sound and complete decides by the first token. -/
theorem RuleSound.decides {rule : Parse (Option α)} {phrase phrase' : Phrase α}
    {first : Lexeme → Bool} {follow : Lexeme → Prop} (h : RuleSound rule phrase first)
    (hfirst : FirstIn first phrase) (hcomplete : RuleComplete deep follow rule phrase' first) :
    Decides first rule where
  declines_iff r := by
    constructor
    · rintro ⟨r', hr⟩
      exact (h.declined hr).2
    · exact fun hr => ⟨r, hcomplete.declines hr⟩
  unmoved _ _ hr := (h.declined hr).1
  consumed r a r' hr := by
    obtain ⟨ts, hts, ha⟩ := h.built hr
    obtain ⟨t, ts', rfl, -⟩ := hfirst _ _ ha
    exact ⟨t, ts', hts⟩

section
variable {nested : Nested} {E E' : Phrase Expression} {B B' : Phrase Block}

/-! ## Statements -/

/-- No statement is found at a token that starts none, -/
theorem statement_declines {r : Reader} (hr : startsStatement r.current.lexeme = false) :
    statement nested r = .ok (none, r) := by
  unfold statement
  rw [token_bind]
  rw [Lookahead.lexeme] at hr
  generalize r.current.token.lexeme = l at hr ⊢
  split
  · cases hr
  · cases hr
  · cases hr
  · cases hr
  · cases hr
  · cases hr
  · rfl

/-- and only there. -/
theorem statement_declined (h : NestedSound nested E B) {r r' : Reader}
    (hr : statement nested r = .ok (none, r')) : startsStatement r.current.lexeme = false := by
  unfold statement at hr
  rw [token_bind] at hr
  generalize hl : r.current.token.lexeme = l at hr
  -- the other statements consume their first token, and cannot decline after that
  have started : ∀ {rule : Parse Statement},
      Commits (advance >>= fun _ => rule >>= fun s => pure (some s)) :=
    .bind fun _ => .bind fun _ => .pure _
  split at hr
  · -- a declaration does not decline at the name of a type
    obtain ⟨found, r₁, hfound, hk⟩ := bind_eq_ok.1 hr
    cases found with
    | none =>
      have hfirst := ((declaration_sound h).declined hfound).2
      rw [Lookahead.lexeme, hl] at hfirst
      cases hfirst
    | some d => exact not_declined hk (.pure _)
  · exact not_declined hr started
  · exact not_declined hr started
  · exact not_declined hr started
  · exact not_declined hr started
  · exact not_declined hr started
  · rw [Lookahead.lexeme, hl]
    unfold startsStatement
    split <;> simp_all

theorem statement_decides (h : NestedSound nested E B) :
    Decides startsStatement (statement nested) where
  declines_iff r := by
    constructor
    · rintro ⟨r', hr⟩
      exact statement_declined h hr
    · exact fun hr => ⟨r, statement_declines hr⟩
  unmoved r r' hr := by
    have hsame : statement nested r = .ok (none, r) :=
      statement_declines (statement_declined h hr)
    exact (Prod.mk.inj (Except.ok.inj (hr.symm.trans hsame))).2
  consumed r s r' hr := by
    obtain ⟨ts, hts, hs⟩ := statement_built h hr
    obtain ⟨t, ts', rfl, -⟩ := statement_first _ _ hs
    exact ⟨t, ts', hts⟩

/-! ## All rules -/

theorem case_first (hE : FirstIn startsExpression E) : FirstIn startsCase (CasePhrase E B) := by
  intro ts c hc
  cases hc with
  | fallback hl _ _ => exact ⟨_, _, rfl, by rw [hl]; rfl⟩
  | test htest _ _ =>
    obtain ⟨t, ts', hts, hfirst⟩ := caseTest_first hE _ _ htest
    obtain ⟨rfl, rfl⟩ := List.cons.inj hts
    exact ⟨_, _, rfl, by rw [startsCase, hfirst, Bool.or_true]⟩

/-- The rules for expressions, statements, cases, blocks and functions, all of which may decline,
with the rules for what is nested in them. -/
structure RulesDecide (nested : Nested) : Prop where
  term : Decides startsTerm (term nested.expression)
  unary : Decides startsExpression (unary nested.expression)
  casted : Decides startsExpression (casted nested.expression)
  multiplicative : Decides startsExpression (multiplicative nested.expression)
  additive : Decides startsExpression (additive nested.expression)
  relation : Decides startsExpression (relation nested.expression)
  conjunction : Decides startsExpression (conjunction nested.expression)
  disjunction : Decides startsExpression (disjunction nested.expression)
  expression : Decides startsExpression nested.expression
  statement : Decides startsStatement (statement nested)
  switchCase : Decides startsCase (switchCase nested)
  braces : Decides (isMark .leftBrace) (blockOf nested)
  block : Decides (isMark .leftBrace) nested.block
  function : Decides isName (functionOf nested)

/-- **Every rule decides by its first token**, if the rules for what is nested in it are sound and
decline where they should. -/
theorem rulesDecide (h : NestedSound nested E B) (hB : FirstIn (isMark .leftBrace) B)
    (hc : NestedComplete deep nested E' B') : RulesDecide nested := by
  have hproducts := chain_sound productOperator_tabulates (casted_sound h.expression)
  have hproducts' := chain_complete productOperator_tabulates (by simp [EndsCasted, EndsTerm])
    (casted_complete hc.expression)
  have hconjunctions := chain_sound andOperator_tabulates (relation_sound h.expression)
  have hconjunctions' := chain_complete andOperator_tabulates
    (by simp [EndsLevel, EndsComparison, EndsSum, EndsCasted, EndsTerm])
    (relation_complete hc.expression)
  exact {
    term := (term_sound h.expression).decides term_first (term_complete hc.expression)
    unary := (unary_sound h.expression).decides unary_first (unary_complete hc.expression)
    casted := (casted_sound h.expression).decides casted_first (casted_complete hc.expression)
    multiplicative := hproducts.decides (leftAssociative_first casted_first) hproducts'
    additive := (additive_sound h.expression).decides sum_first (additive_complete hc.expression)
    relation :=
      (relation_sound h.expression).decides comparison_first (relation_complete hc.expression)
    conjunction := hconjunctions.decides (leftAssociative_first comparison_first) hconjunctions'
    disjunction := (disjunction_sound h.expression).decides
      (leftAssociative_first (leftAssociative_first comparison_first))
      (disjunction_complete hc.expression)
    expression := h.expression.decides h.first hc.expression
    statement := statement_decides h
    switchCase := (switchCase_sound h).decides (case_first h.first) (switchCase_complete hc)
    braces := (blockOf_sound h).decides braced_first (blockOf_complete hc)
    block := h.block.decides hB hc.block
    function := (functionOf_sound h.block).decides function_first
      (functionOf_complete hc.block hc.braced) }

end

theorem nestedUpTo_complete (depth : Nat) :
    NestedComplete (depth < depth) (nestedUpTo depth) (ExpressionPhrase depth)
      (BlockPhrase depth) :=
  ⟨expression_complete depth depth, expression_first depth, block_complete depth depth,
    block_first depth⟩

/-- The rules of the parser decide by their first token, however deep nesting may go. -/
theorem rulesDecide_nestedUpTo (depth : Nat) : RulesDecide (nestedUpTo depth) :=
  rulesDecide (nestedUpTo_sound depth) (block_first depth) (nestedUpTo_complete depth)

end FLang
