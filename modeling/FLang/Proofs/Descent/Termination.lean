import FLang.Proofs.Descent.Decisions

/-!
# Recursive descent ends

Loops and nesting of the parser are bounded: a loop by the tokens that are left, nesting by a depth.
Neither bound is what ends the descent.

* A loop does the same with every larger bound (`Settles`, `loopsSettle`).
* The rules for what is nested, without a bound for the depth, are a solution of the equations that
  unroll them (`Nested.Unrolls`). There is exactly one (`unrolls_iff`), and on fewer tokens than a
  depth it is the rules up to that depth (`unbounded_agree`).

What is nested in a rule is met only after the rule has consumed a token. So two rules for what is
nested that agree on fewer than `n` tokens make rules that agree on `n` tokens as well: one lemma
for each rule (`AgreeBelow`).
-/

namespace FLang

open Grammar Parse FLang.Parser

/-! ## Loops -/

/-- A loop does the same with every bound that is not below the number of tokens to come. -/
def Settles {α : Type} (loop : Nat → Parse α) : Prop :=
  ∀ ⦃fuel fuel' : Nat⦄ ⦃r : Reader⦄, r.upcoming.length ≤ fuel → r.upcoming.length ≤ fuel' →
    loop fuel r = loop fuel' r

/-- Every loop of the parser, with the rules for what is nested in it. -/
structure LoopsSettle (nested : Nested) : Prop where
  products : ∀ left, Settles fun fuel =>
    chainFrom productOperator (casted nested.expression) fuel left
  sums : ∀ left, Settles fun fuel =>
    chainFrom sumOperator (multiplicative nested.expression) fuel left
  conjunctions : ∀ left, Settles fun fuel =>
    chainFrom andOperator (relation nested.expression) fuel left
  disjunctions : ∀ left, Settles fun fuel =>
    chainFrom orOperator (conjunction nested.expression) fuel left
  arguments : ∀ cause, Settles (afterCommas (require nested.expression cause))
  declarations : ∀ cause, Settles (afterCommas (require (declaration nested) cause))
  cases : ∀ cause, Settles (afterCommas (require (switchCase nested) cause))
  names : ∀ cause, Settles (afterCommas (expectIdentifier cause))
  groups : ∀ cause, Settles (afterCommas (require parameterGroup cause))
  statements : Settles (statements nested)
  functions : ∀ defined, Settles fun fuel => functions nested fuel defined

/-- **No loop is ended by its bound.** -/
theorem loopsSettle {nested : Nested} {E : Phrase Expression} {B : Phrase Block}
    (h : NestedScans nested) (hs : NestedSound nested E B) : LoopsSettle nested where
  products _ _ _ _ := chainFrom_enough productOperator_tabulates (casted_scans h.expression)
  sums _ _ _ _ := chainFrom_enough sumOperator_tabulates
    (chain_scans productOperator_tabulates (casted_scans h.expression))
  conjunctions _ _ _ _ := chainFrom_enough andOperator_tabulates (relation_scans h.expression)
  disjunctions _ _ _ _ := chainFrom_enough orOperator_tabulates
    (chain_scans andOperator_tabulates (relation_scans h.expression))
  arguments _ _ _ _ := afterCommas_enough (require_scans h.expression _)
  declarations _ _ _ _ := afterCommas_enough (require_scans (declaration_scans h) _)
  cases _ _ _ _ := afterCommas_enough (require_scans (switchCase_scans h) _)
  names _ _ _ _ := afterCommas_enough (expectIdentifier_scans _)
  groups _ _ _ _ := afterCommas_enough (require_scans parameterGroup_scans _)
  statements _ _ _ := statements_enough hs
  functions _ _ _ _ := functions_enough hs.block

/-! ## Rules that agree on few tokens -/

/-- Two computations do the same on every reader with fewer tokens to come than a bound. -/
def AgreeBelow {α : Type} (n : Nat) (x y : Parse α) : Prop :=
  ∀ ⦃r : Reader⦄, r.upcoming.length < n → x r = y r

namespace AgreeBelow

variable {α β : Type} {n m : Nat} {x y : Parse α} {f g : α → Parse β}

theorem refl (n : Nat) (x : Parse α) : AgreeBelow n x x :=
  fun _ _ => rfl

/-- Agreement on more tokens is agreement on fewer. -/
theorem mono (h : AgreeBelow n x y) (hle : m ≤ n) : AgreeBelow m x y :=
  fun _ hr => h (Nat.lt_of_lt_of_le hr hle)

/-- What is read in front of two computations does not leave more tokens to them. -/
theorem bind (hx : AgreeBelow n x y) (hscans : Scans x) (hf : ∀ a, AgreeBelow n (f a) (g a)) :
    AgreeBelow n (x >>= f) (y >>= g) := by
  intro r hr
  rw [← bind_congr_first (hx hr)]
  refine bind_congr_at fun {a r'} ha => hf a ?_
  obtain ⟨ts, hts⟩ := (hscans r).reads ha
  rw [hts.upcoming_eq, List.length_append] at hr
  omega

/-- Rules that agree can go on in the same way. -/
theorem bind_left (hx : AgreeBelow n x y) : AgreeBelow n (x >>= f) (y >>= f) :=
  fun _ hr => bind_congr_first (hx hr)

/-- What follows a rule has no more tokens than the rule had. -/
theorem bind_right (hscans : Scans x) (hf : ∀ a, AgreeBelow n (f a) (g a)) :
    AgreeBelow n (x >>= f) (x >>= g) :=
  (refl n x).bind hscans hf

/-- A token that is consumed leaves one token less to what follows. -/
theorem advance {f g : Unit → Parse β} {r : Reader} (hf : AgreeBelow n (f ()) (g ()))
    (hne : r.current.lexeme ≠ .endOfInput) (hr : r.upcoming.length < n + 1) :
    (Parse.advance >>= f) r = (Parse.advance >>= g) r := by
  refine bind_congr_at fun {u r'} hadv => ?_
  have hlt := (reads_of_advance hne hadv).upcoming_lt
  exact hf (by omega)

/-- Requiring a rule keeps agreement. -/
theorem require {x y : Parse (Option α)} (h : AgreeBelow n x y) (cause : Diagnostic.Cause) :
    AgreeBelow n (require x cause) (require y cause) :=
  h.bind_left

/-- Loops over items that agree, agree with the same bound, by induction on it. -/
theorem afterCommas (h : AgreeBelow n x y) (hscans : Scans x) (fuel : Nat) :
    AgreeBelow n (afterCommas x fuel) (afterCommas y fuel) := by
  induction fuel with
  | zero => exact .refl n _
  | succ fuel ih =>
    refine .bind_right (accept_scans _) fun b => ?_
    split
    · exact h.bind hscans fun _ => ih.bind_left
    · exact .refl n _

/-- Items after commas agree, since the bound is the same for both. -/
theorem moreAfterCommas (h : AgreeBelow n x y) (hscans : Scans x) :
    AgreeBelow n (moreAfterCommas x) (moreAfterCommas y) := by
  intro r hr
  unfold Parse.moreAfterCommas
  rw [budget_bind, budget_bind]
  exact h.afterCommas hscans _ hr

end AgreeBelow

/-! ### Expressions -/

section
variable {n : Nat} {nested nested' : Parse (Option Expression)}

theorem argumentList_agree (h : AgreeBelow n nested nested') (hscans : Scans nested)
    (name : String) : AgreeBelow n (argumentList nested name) (argumentList nested' name) := by
  refine h.bind hscans fun found => ?_
  cases found with
  | none => exact .refl n _
  | some first => exact ((h.require _).moreAfterCommas (require_scans hscans _)).bind_left

/-- Arguments agree on as many tokens as expressions do; their parenthesis is not counted. -/
theorem callArguments_agree (h : AgreeBelow n nested nested') (hscans : Scans nested)
    (name : String) : AgreeBelow n (callArguments nested name) (callArguments nested' name) := by
  refine .bind_right (accept_scans _) fun b => ?_
  split
  · exact (argumentList_agree h hscans name).bind_left
  · exact .refl n _

/-- An expression in a term stands behind a parenthesis, so it may have one token less. -/
theorem term_agree (h : AgreeBelow n nested nested') (hscans : Scans nested) :
    AgreeBelow (n + 1) (term nested) (term nested') := by
  intro r hr
  unfold term
  rw [token_bind, token_bind]
  generalize hl : r.current.token.lexeme = l
  split
  · rfl
  · exact AgreeBelow.advance (callArguments_agree h hscans _).bind_left (by simp [hl]) hr
  · exact AgreeBelow.advance (h.require _).bind_left (by simp [hl]) hr
  · rfl

/-- What is below a sign agrees, with or without the sign. -/
theorem unary_agree (h : AgreeBelow n nested nested') (hscans : Scans nested) :
    AgreeBelow (n + 1) (unary nested) (unary nested') := by
  intro r hr
  have hterm := term_agree h hscans
  unfold unary
  rw [token_bind, token_bind]
  split
  · next hs =>
    have hne : r.current.lexeme ≠ .endOfInput := by
      rcases isSign_eq_true.1 hs with hl | hl <;> simp [hl]
    exact AgreeBelow.advance ((hterm.mono (Nat.le_succ n)).require _).bind_left hne hr
  · exact hterm hr

theorem casted_agree (h : AgreeBelow n nested nested') (hscans : Scans nested) :
    AgreeBelow (n + 1) (casted nested) (casted nested') :=
  (unary_agree h hscans).bind_left

/-- Further operands stand behind operators, and agree by induction on the bound. -/
theorem chainFrom_agree {operatorOf : Lexeme → Option BinaryOperator} {ops : List BinaryOperator}
    (htable : Tabulates operatorOf ops) (h : AgreeBelow n nested nested') (hscans : Scans nested)
    (fuel : Nat) (left : Expression) :
    AgreeBelow n (chainFrom operatorOf nested fuel left)
      (chainFrom operatorOf nested' fuel left) := by
  induction fuel generalizing left with
  | zero => exact .refl n _
  | succ fuel ih =>
    intro r hr
    unfold chainFrom
    rw [token_bind, token_bind]
    generalize hop : operatorOf r.current.token.lexeme = found
    cases found with
    | none => rfl
    | some op =>
      have hne : r.current.lexeme ≠ .endOfInput := by simp [((htable _ _).1 hop).1]
      have hright := (h.require (.missingExpression (quote op.symbol))).bind
        (require_scans hscans _) fun right => ih (.binary r.current.token.position op left right)
      exact AgreeBelow.advance hright hne (by omega)

/-- Chains of operands that agree, agree. -/
theorem chain_agree {operatorOf : Lexeme → Option BinaryOperator} {ops : List BinaryOperator}
    (htable : Tabulates operatorOf ops) (h : AgreeBelow n nested nested')
    (hscans : Scans nested) :
    AgreeBelow n (chain operatorOf nested) (chain operatorOf nested') := by
  refine h.bind hscans fun found => ?_
  cases found with
  | none => exact .refl n _
  | some left =>
    intro r hr
    simp only [budget_bind]
    exact (chainFrom_agree htable h hscans _ left).bind_left hr

/-- Sums agree as products do. -/
theorem additive_agree (h : AgreeBelow n nested nested') (hscans : Scans nested) :
    AgreeBelow (n + 1) (additive nested) (additive nested') := by
  have hproducts := chain_agree productOperator_tabulates (casted_agree h hscans)
    (casted_scans hscans)
  exact chain_agree sumOperator_tabulates hproducts
    (chain_scans productOperator_tabulates (casted_scans hscans))

/-- Both sides of a relation agree. -/
theorem relation_agree (h : AgreeBelow n nested nested') (hscans : Scans nested) :
    AgreeBelow (n + 1) (Parser.relation nested) (Parser.relation nested') := by
  have hsum := additive_agree h hscans
  refine hsum.bind (additive_scans hscans) fun found => ?_
  cases found with
  | none => exact .refl _ _
  | some left =>
    intro r hr
    simp only [token_bind]
    generalize hop : relationOperator r.current.token.lexeme = found
    cases found with
    | none => rfl
    | some op =>
      have hne : r.current.lexeme ≠ .endOfInput := by simp [relationOperator_eq_some.1 hop]
      exact AgreeBelow.advance ((hsum.mono (Nat.le_succ n)).require _).bind_left hne hr

/-- Expressions are made of nested ones behind a token. -/
theorem disjunction_agree (h : AgreeBelow n nested nested') (hscans : Scans nested) :
    AgreeBelow (n + 1) (disjunction nested) (disjunction nested') := by
  have hconjunctions := chain_agree andOperator_tabulates (relation_agree h hscans)
    (relation_scans hscans)
  exact chain_agree orOperator_tabulates hconjunctions
    (chain_scans andOperator_tabulates (relation_scans hscans))

end

/-! ### Statements -/

/-- The rules for what a statement contains agree on few tokens. -/
structure NestedAgree (n : Nat) (nested nested' : Nested) : Prop where
  expression : AgreeBelow n nested.expression nested'.expression
  block : AgreeBelow n nested.block nested'.block

section
variable {n : Nat} {nested nested' : Nested}

/-- The value of a declaration stands behind its type. -/
theorem declaration_agree (h : NestedAgree n nested nested') :
    AgreeBelow (n + 1) (declaration nested) (declaration nested') := by
  intro r hr
  refine bind_congr_at fun {found r₁} hfound => ?_
  cases found with
  | none => rfl
  | some type =>
    obtain ⟨ts, hts, htype⟩ := typeAnnotation_sound.built hfound
    cases htype with
    | intro _ =>
      -- the type is the token that the declaration consumes in front of its expression
      have hlt := hts.upcoming_lt
      have hrest : r₁.upcoming.length < n := by omega
      refine AgreeBelow.bind_right (expectIdentifier_scans _) (fun found => ?_) hrest
      obtain ⟨position, name⟩ := found
      exact .bind_right (expect_scans _ _) fun _ => (h.expression.require _).bind_left

/-- Behind the name of a statement, values and arguments agree. -/
theorem assignmentOrCall_agree (h : NestedAgree n nested nested') (hscans : NestedScans nested)
    (position : Position) (name : String) :
    AgreeBelow n (assignmentOrCall nested position name)
      (assignmentOrCall nested' position name) := by
  refine (callArguments_agree h.expression hscans.expression name).bind
    (callArguments_scans hscans.expression name) fun found => ?_
  cases found with
  | some arguments => exact .refl n _
  | none =>
    refine .bind_right (accept_scans _) fun b => ?_
    split
    · exact (h.expression.require _).bind_left
    · exact .refl n _

/-- The test and both blocks of a condition agree. -/
theorem conditional_agree (h : NestedAgree n nested nested') (hscans : NestedScans nested)
    (position : Position) :
    AgreeBelow n (conditional nested position) (conditional nested' position) := by
  refine (h.expression.require _).bind (hscans.requireExpression _) fun condition => ?_
  refine (h.block.require _).bind hscans.requireBlock fun thenBlock => ?_
  refine .bind_right (acceptKeyword_scans _) fun b => ?_
  split
  · exact (h.block.require _).bind_left
  · exact .refl n _

/-- The test and the body of a loop agree. -/
theorem loop_agree (h : NestedAgree n nested nested') (hscans : NestedScans nested)
    (position : Position) : AgreeBelow n (loop nested position) (loop nested' position) :=
  (h.expression.require _).bind (hscans.requireExpression _) fun _ =>
    (h.block.require _).bind_left

/-- The value behind `return` agrees, if there is one. -/
theorem giveBack_agree (h : NestedAgree n nested nested') (position : Position) :
    AgreeBelow n (Parser.giveBack nested position) (Parser.giveBack nested' position) := by
  intro r hr
  unfold Parser.giveBack
  rw [newlineBefore_bind, newlineBefore_bind]
  split
  · rfl
  · exact h.expression.bind_left hr

theorem caseOutput_agree (h : NestedAgree n nested nested') (hscans : NestedScans nested) :
    AgreeBelow n (caseOutput nested) (caseOutput nested') := by
  refine h.block.bind hscans.block fun found => ?_
  cases found with
  | some block => exact .refl n _
  | none => exact (h.expression.require _).bind_left

theorem caseTest_agree (h : NestedAgree n nested nested') :
    AgreeBelow n (caseTest nested) (caseTest nested') := by
  intro r hr
  unfold caseTest
  rw [lexeme_bind, lexeme_bind]
  generalize hop : relationOperator r.current.lexeme = found
  cases found with
  | some op =>
    have hne : r.current.lexeme ≠ .endOfInput := by simp [relationOperator_eq_some.1 hop]
    exact AgreeBelow.advance (h.expression.require _).bind_left hne (by omega)
  | none => exact h.expression.bind_left hr

/-- Cases agree in their tests and in what they do. -/
theorem switchCase_agree (h : NestedAgree n nested nested') (hscans : NestedScans nested) :
    AgreeBelow n (switchCase nested) (switchCase nested') := by
  intro r hr
  have houtput := caseOutput_agree h hscans
  unfold switchCase
  rw [token_bind, token_bind]
  refine AgreeBelow.bind_right (acceptKeyword_scans _) (fun b => ?_) hr
  split
  · exact .bind_right (expect_scans _ _) fun _ => houtput.bind_left
  · refine (caseTest_agree h).bind (caseTest_scans hscans) fun found => ?_
    cases found with
    | none => exact .refl n _
    | some test => exact .bind_right (expect_scans _ _) fun _ => houtput.bind_left

theorem choiceHead_agree (h : NestedAgree n nested nested') (hscans : NestedScans nested) :
    AgreeBelow n (choiceHead nested) (choiceHead nested') := by
  have hdeclaration := (declaration_agree h).mono (Nat.le_succ n)
  have hdeclarations := (hdeclaration.require .badSwitchDeclaration).moreAfterCommas
    (require_scans (declaration_scans hscans) _)
  refine hdeclaration.bind (declaration_scans hscans) fun found => ?_
  cases found with
  | some first => exact hdeclarations.bind_left
  | none => exact h.expression.bind_left

theorem choiceCases_agree (h : NestedAgree n nested nested') (hscans : NestedScans nested) :
    AgreeBelow n (choiceCases nested) (choiceCases nested') := by
  have hcase := switchCase_agree h hscans
  have hcases := switchCase_scans hscans
  refine .bind_right (expect_scans _ _) fun _ => ?_
  refine (hcase.require _).bind (require_scans hcases _) fun first => ?_
  exact ((hcase.require _).moreAfterCommas (require_scans hcases _)).bind_left

/-- A choice agrees in its head and in its cases. -/
theorem choice_agree (h : NestedAgree n nested nested') (hscans : NestedScans nested)
    (position : Position) : AgreeBelow n (choice nested position) (choice nested' position) :=
  (choiceHead_agree h hscans).bind (choiceHead_scans hscans) fun _ =>
    (choiceCases_agree h hscans).bind_left

/-- **Statements agree on one more token than what is nested in them**: their first token is their
own. -/
theorem statement_agree (h : NestedAgree n nested nested') (hscans : NestedScans nested) :
    AgreeBelow (n + 1) (statement nested) (statement nested') := by
  intro r hr
  unfold statement
  rw [token_bind, token_bind]
  generalize hl : r.current.token.lexeme = l
  split
  · exact (declaration_agree h).bind_left hr
  · exact AgreeBelow.advance (assignmentOrCall_agree h hscans _ _).bind_left (by simp [hl]) hr
  · exact AgreeBelow.advance (conditional_agree h hscans _).bind_left (by simp [hl]) hr
  · exact AgreeBelow.advance (loop_agree h hscans _).bind_left (by simp [hl]) hr
  · exact AgreeBelow.advance (choice_agree h hscans _).bind_left (by simp [hl]) hr
  · exact AgreeBelow.advance (giveBack_agree h _).bind_left (by simp [hl]) hr
  · rfl

/-- The statements of a block agree, by induction on their bound. -/
theorem statements_agree (h : NestedAgree n nested nested') (hscans : NestedScans nested)
    (fuel : Nat) : AgreeBelow n (statements nested fuel) (statements nested' fuel) := by
  have hstatement := (statement_agree h hscans).mono (Nat.le_succ n)
  induction fuel with
  | zero => exact .refl n _
  | succ fuel ih =>
    refine .bind_right (accept_scans _) fun b => ?_
    split
    · exact .refl n _
    · intro r hr
      rw [lexeme_bind, lexeme_bind]
      split
      · rfl
      · refine hstatement.bind (statement_scans hscans) (fun found => ?_) hr
        cases found with
        | some first => exact ih.bind_left
        | none => exact .refl n _

/-- Blocks are made of nested ones behind a brace. -/
theorem blockOf_agree (h : NestedAgree n nested nested') (hscans : NestedScans nested) :
    AgreeBelow (n + 1) (blockOf nested) (blockOf nested') := by
  intro r hr
  unfold blockOf
  rw [token_bind, token_bind]
  refine bind_congr_at fun {b r₁} hb => ?_
  rcases accept_inv hb with ⟨rfl, -, hbrace⟩ | ⟨rfl, -, rfl⟩
  · have hlt := hbrace.upcoming_lt
    have hrest : r₁.upcoming.length < n := by omega
    -- the budget is taken behind the brace, so both blocks have the same
    simp only [if_true, budget_bind]
    exact bind_congr_first (statements_agree h hscans (r₁.budget + 1) hrest)
  · simp only [Bool.false_eq_true, if_false]

/-! ### Functions -/

/-- Functions agree as their bodies do. -/
theorem functionOf_agree (h : AgreeBelow n nested.block nested'.block) :
    AgreeBelow n (functionOf nested) (functionOf nested') := by
  intro r hr
  unfold functionOf
  rw [token_bind, token_bind]
  generalize hl : r.current.token.lexeme = l
  split
  · next name =>
    refine AgreeBelow.advance (n := n) ?_ (by simp [hl]) (by omega)
    refine .bind_right (expect_scans _ _) fun _ => ?_
    refine .bind_right parameters_scans fun _ => ?_
    refine .bind_right (expect_scans _ _) fun _ => ?_
    exact .bind_right typeAnnotation_scans fun _ => (h.require _).bind_left
  · rfl

/-- Further functions agree, by induction on their bound. -/
theorem functions_agree (h : AgreeBelow n nested.block nested'.block)
    (hscans : Scans nested.block) (fuel : Nat) (defined : Program) :
    AgreeBelow n (functions nested fuel defined) (functions nested' fuel defined) := by
  induction fuel generalizing defined with
  | zero => exact .refl n _
  | succ fuel ih =>
    refine (functionOf_agree h).bind (functionOf_scans hscans) fun found => ?_
    cases found with
    | none => exact .refl n _
    | some next =>
      simp only
      cases defined.find? next.name with
      | some earlier => exact .refl n _
      | none => exact ih _

/-- Programs agree as the bodies of their functions do. -/
theorem programOf_agree (h : AgreeBelow n nested.block nested'.block)
    (hscans : Scans nested.block) : AgreeBelow n (programOf nested) (programOf nested') := by
  intro r hr
  unfold programOf
  rw [budget_bind, budget_bind]
  exact (functions_agree h hscans _ _).bind_left hr

end

/-! ## Without a bound for nesting -/

/-- Rules for what is nested that are made of themselves, so that they refuse no depth. -/
structure Parser.Nested.Unrolls (nested : Nested) : Prop where
  expression : nested.expression = disjunction nested.expression
  block : nested.block = blockOf nested

/-- The rules up to a depth that the tokens to come do not exceed. -/
def unbounded : Nested where
  expression r := Parser.expression (r.upcoming.length + 1) r
  block r := Parser.block (r.upcoming.length + 1) r

/-- One more level of nesting is one more round of the rules. -/
theorem nestedUpTo_succ (depth : Nat) : nestedUpTo (depth + 1) =
    ⟨disjunction (nestedUpTo depth).expression, blockOf (nestedUpTo depth)⟩ :=
  rfl

theorem nestedUpTo_scans (depth : Nat) : NestedScans (nestedUpTo depth) :=
  ⟨expression_scans depth, block_scans depth⟩

/-- With no token to come, nothing is nested. -/
theorem nestedUpTo_zero_agree (nested : Nested) : NestedAgree 0 (nestedUpTo 0) nested :=
  ⟨fun _ hr => absurd hr (Nat.not_lt_zero _), fun _ hr => absurd hr (Nat.not_lt_zero _)⟩

/-- One more level of nesting reaches one token further. -/
theorem nestedUpTo_succ_agree {depth : Nat} {nested : Nested}
    (h : NestedAgree depth (nestedUpTo depth) nested) :
    NestedAgree (depth + 1) (nestedUpTo (depth + 1))
      ⟨disjunction nested.expression, blockOf nested⟩ :=
  ⟨disjunction_agree h.expression (expression_scans depth),
    blockOf_agree h (nestedUpTo_scans depth)⟩

/-- **Rules for different depths agree on as many tokens as the smaller depth.** Nesting takes
tokens, so a deeper level is not reached with fewer of them. -/
theorem nestedUpTo_agree {depth depth' : Nat} (h : depth ≤ depth') :
    NestedAgree depth (nestedUpTo depth) (nestedUpTo depth') := by
  induction depth generalizing depth' with
  | zero => exact nestedUpTo_zero_agree _
  | succ depth ih =>
    obtain ⟨depth', rfl⟩ := Nat.exists_eq_succ_of_ne_zero (Nat.ne_zero_of_lt h)
    rw [Nat.succ_eq_add_one, nestedUpTo_succ depth']
    exact nestedUpTo_succ_agree (ih (Nat.le_of_succ_le_succ h))

/-- **Rules that refuse no depth agree with those up to a depth** on fewer tokens. -/
theorem Parser.Nested.Unrolls.agree {nested : Nested} (h : nested.Unrolls) (depth : Nat) :
    NestedAgree depth (nestedUpTo depth) nested := by
  induction depth with
  | zero => exact nestedUpTo_zero_agree nested
  | succ depth ih =>
    have hstep := nestedUpTo_succ_agree ih
    rwa [← h.expression, ← h.block] at hstep

/-- The rules without a bound agree with those of a depth on as many tokens. -/
theorem unbounded_agree (depth : Nat) : NestedAgree depth (nestedUpTo depth) unbounded where
  expression _ hr := ((nestedUpTo_agree hr).expression (Nat.lt_succ_self _)).symm
  block _ hr := ((nestedUpTo_agree hr).block (Nat.lt_succ_self _)).symm

/-- The rules without a bound are one round over themselves. -/
theorem unbounded_unrolls : unbounded.Unrolls := by
  -- at the depth of the tokens to come, one more level of nesting is one unrolling
  have hagree (r : Reader) := unbounded_agree (r.upcoming.length + 1)
  have hstep (r : Reader) := nestedUpTo_succ_agree (unbounded_agree r.upcoming.length)
  constructor
  · funext r
    exact ((hagree r).expression (Nat.lt_succ_self _)).symm.trans
      ((hstep r).expression (Nat.lt_succ_self _))
  · funext r
    exact ((hagree r).block (Nat.lt_succ_self _)).symm.trans
      ((hstep r).block (Nat.lt_succ_self _))

/-- **Rules without a bound for nesting are determined by unrolling them**: on every reader the
descent comes to its end. -/
theorem unrolls_iff {nested : Nested} : nested.Unrolls ↔ nested = unbounded := by
  constructor
  · intro h
    have hexpression : nested.expression = unbounded.expression := funext fun r =>
      ((h.agree (r.upcoming.length + 1)).expression (Nat.lt_succ_self _)).symm
    have hblock : nested.block = unbounded.block := funext fun r =>
      ((h.agree (r.upcoming.length + 1)).block (Nat.lt_succ_self _)).symm
    obtain ⟨expression, block⟩ := nested
    obtain rfl : expression = _ := hexpression
    obtain rfl : block = _ := hblock
    rfl
  · rintro rfl
    exact unbounded_unrolls

/-- What is built without a bound is derived at some depth. -/
theorem unbounded_sound :
    NestedSound unbounded (fun ts e => ∃ depth, ExpressionPhrase depth ts e)
      (fun ts b => ∃ depth, BlockPhrase depth ts b) where
  expression := by
    constructor
    · intro r e r' hr
      obtain ⟨ts, hts, he⟩ := (expression_sound _).built hr
      exact ⟨ts, hts, _, he⟩
    · exact fun hr => (expression_sound _).declined hr
  first := by
    rintro ts e ⟨depth, he⟩
    exact expression_first depth _ _ he
  block := by
    constructor
    · intro r b r' hr
      obtain ⟨ts, hts, hb⟩ := (block_sound _).built hr
      exact ⟨ts, hts, _, hb⟩
    · exact fun hr => (block_sound _).declined hr

/-- Without a bound, rules still decide at their first token. -/
theorem rulesDecide_unbounded : RulesDecide unbounded := by
  -- only where the rules decline matters here, so they need not accept any phrase
  have hdeclines : NestedComplete False unbounded (fun _ _ => False) (fun _ _ => False) :=
    ⟨⟨fun he => he.elim, (expression_complete _ 0).declines⟩, fun _ _ he => he.elim,
      ⟨fun hb => hb.elim, (block_complete _ 0).declines⟩, fun _ _ hb => hb.elim⟩
  refine rulesDecide unbounded_sound ?_ hdeclines
  rintro ts b ⟨depth, hb⟩
  exact block_first depth _ _ hb

/-- A loop settles if on few tokens it is one that does. -/
theorem Settles.of_agree {α : Type} {loop : Nat → Parse α} {bounded : Nat → Nat → Parse α}
    (h : ∀ depth, Settles (bounded depth))
    (hagree : ∀ depth fuel, AgreeBelow depth (bounded depth fuel) (loop fuel)) : Settles loop := by
  intro fuel fuel' r hfuel hfuel'
  have hr : r.upcoming.length < r.upcoming.length + 1 := Nat.lt_succ_self _
  rw [← hagree _ fuel hr, ← hagree _ fuel' hr]
  exact h _ hfuel hfuel'

/-- Loops settle at every depth. -/
theorem loopsSettle_nestedUpTo (depth : Nat) : LoopsSettle (nestedUpTo depth) :=
  loopsSettle (nestedUpTo_scans depth) (nestedUpTo_sound depth)

/-- Loops settle without a bound for nesting. -/
theorem loopsSettle_unbounded : LoopsSettle unbounded := by
  -- each loop is compared with the same loop up to a depth that the reader cannot exhaust
  have hloops := loopsSettle_nestedUpTo
  have hagree := unbounded_agree
  have hscans := nestedUpTo_scans
  have hcasted (depth : Nat) := (casted_agree (hagree depth).expression
    (hscans depth).expression).mono (Nat.le_succ depth)
  have hproducts (depth : Nat) := chain_agree productOperator_tabulates (hcasted depth)
    (casted_scans (hscans depth).expression)
  have hrelation (depth : Nat) := (relation_agree (hagree depth).expression
    (hscans depth).expression).mono (Nat.le_succ depth)
  have hconjunctions (depth : Nat) := chain_agree andOperator_tabulates (hrelation depth)
    (relation_scans (hscans depth).expression)
  have hdeclaration (depth : Nat) := (declaration_agree (hagree depth)).mono (Nat.le_succ depth)
  exact {
    products := fun left => .of_agree (fun depth => (hloops depth).products left) fun depth fuel =>
      chainFrom_agree productOperator_tabulates (hcasted depth)
        (casted_scans (hscans depth).expression) fuel left
    sums := fun left => .of_agree (fun depth => (hloops depth).sums left) fun depth fuel =>
      chainFrom_agree sumOperator_tabulates (hproducts depth)
        (chain_scans productOperator_tabulates (casted_scans (hscans depth).expression)) fuel left
    conjunctions := fun left => .of_agree (fun depth => (hloops depth).conjunctions left)
      fun depth fuel => chainFrom_agree andOperator_tabulates (hrelation depth)
        (relation_scans (hscans depth).expression) fuel left
    disjunctions := fun left => .of_agree (fun depth => (hloops depth).disjunctions left)
      fun depth fuel => chainFrom_agree orOperator_tabulates (hconjunctions depth)
        (chain_scans andOperator_tabulates (relation_scans (hscans depth).expression)) fuel left
    arguments := fun cause => .of_agree (fun depth => (hloops depth).arguments cause)
      fun depth fuel => ((hagree depth).expression.require cause).afterCommas
        (require_scans (hscans depth).expression cause) fuel
    declarations := fun cause => .of_agree (fun depth => (hloops depth).declarations cause)
      fun depth fuel => ((hdeclaration depth).require cause).afterCommas
        (require_scans (declaration_scans (hscans depth)) cause) fuel
    cases := fun cause => .of_agree (fun depth => (hloops depth).cases cause)
      fun depth fuel => ((switchCase_agree (hagree depth) (hscans depth)).require cause).afterCommas
        (require_scans (switchCase_scans (hscans depth)) cause) fuel
    names := (hloops 0).names
    groups := (hloops 0).groups
    statements := .of_agree (fun depth => (hloops depth).statements) fun depth fuel =>
      statements_agree (hagree depth) (hscans depth) fuel
    functions := fun defined => .of_agree (fun depth => (hloops depth).functions defined)
      fun depth fuel => functions_agree (hagree depth).block (hscans depth).block fuel defined }

/-- **Every rule decides by its first token, and the descent ends.** Up to any depth of nesting and
without a bound for it, every rule declines exactly where none of its first lexemes stands, leaves
the reader as it is then, and consumes a token for what it builds. No loop is ended by its bound.
The rules without a bound are determined by unrolling them, and on fewer tokens than a depth the
rules up to that depth do the same. -/
theorem descent_decides_and_ends (depth : Nat) :
    (RulesDecide (nestedUpTo depth) ∧ LoopsSettle (nestedUpTo depth)) ∧
    (RulesDecide unbounded ∧ LoopsSettle unbounded) ∧
    (∀ nested : Nested, nested.Unrolls ↔ nested = unbounded) ∧
    NestedAgree depth (nestedUpTo depth) unbounded ∧
    AgreeBelow depth (programOf (nestedUpTo depth)) (programOf unbounded) :=
  ⟨⟨rulesDecide_nestedUpTo depth, loopsSettle_nestedUpTo depth⟩,
    ⟨rulesDecide_unbounded, loopsSettle_unbounded⟩, fun _ => unrolls_iff, unbounded_agree depth,
    programOf_agree (unbounded_agree depth).block (block_scans depth)⟩

end FLang
