import FLang.Proofs.Prefixes.Locality

/-!
# Every rule looks at one token ahead

Each rule of the parser scans if the rules for what is nested in it do, so `Parser.expression` and
`Parser.block` scan at every depth, and `Parser.program` does.
-/

namespace FLang

open Grammar Parse FLang.Parser

/-! ## Expressions -/

section
variable {nested : Parse (Option Expression)}

/-- Arguments are scanned one after the other, as far as commas go. -/
theorem argumentList_scans (h : Scans nested) (name : String) :
    Scans (argumentList nested name) := by
  intro r
  refine (h r).bind fun {found r₁} _ => ?_
  cases found with
  | none => exact .pure _
  | some first => exact (moreAfterCommas_scans (require_scans h _) r₁).bind fun _ => .pure _

/-- The arguments of a call end at a closing parenthesis, or the token in its place is refused. -/
theorem callArguments_scans (h : Scans nested) (name : String) :
    Scans (callArguments nested name) := by
  intro r
  refine (accept_scans _ r).bind fun {b r₁} _ => ?_
  split
  · refine (argumentList_scans h name r₁).bind fun {arguments r₂} _ => ?_
    exact (expect_scans _ _ r₂).bind fun _ => .pure _
  · exact .pure _

/-- The first token of a term decides what it is; behind a name, one more decides whether it is a
call. -/
theorem term_scans (h : Scans nested) : Scans (term nested) := by
  intro r
  refine .token ?_
  generalize hl : r.current.token.lexeme = l
  split
  · exact .bind (.advance (by simp [hl])) fun _ => .pure _
  · refine .bind (.advance (by simp [hl])) fun {u r₁} _ => ?_
    refine (callArguments_scans h _ r₁).bind fun {arguments r₂} _ => ?_
    cases arguments with
    | none => exact .pure _
    | some arguments => exact .pure _
  · refine .bind (.advance (by simp [hl])) fun {u r₁} _ => ?_
    refine (require_scans h _ r₁).bind fun {inner r₂} _ => ?_
    exact (expect_scans _ _ r₂).bind fun _ => .pure _
  · exact .pure _

/-- A sign is scanned before its operand, if there is one. -/
theorem unary_scans (h : Scans nested) : Scans (unary nested) := by
  intro r
  refine .token ?_
  split
  · next hs =>
    have hne : r.current.lexeme ≠ .endOfInput := by
      rcases isSign_eq_true.1 hs with hl | hl <;> simp [hl]
    refine .bind (.advance hne) fun {u r₁} _ => ?_
    exact (require_scans (term_scans h) _ r₁).bind fun _ => .pure _
  · exact term_scans h r

/-- Behind an operand, one token decides whether a cast follows. -/
theorem casted_scans (h : Scans nested) : Scans (casted nested) := by
  intro r
  refine (unary_scans h r).bind fun {found r₁} _ => ?_
  cases found with
  | none => exact .pure _
  | some operand =>
    refine .token ?_
    refine (acceptKeyword_scans _ r₁).bind fun {b r₂} _ => ?_
    split
    · exact (require_scans typeAnnotation_scans _ r₂).bind fun _ => .pure _
    · exact .pure _

/-- Sums are chains of products. -/
theorem additive_scans (h : Scans nested) : Scans (additive nested) :=
  chain_scans sumOperator_tabulates (chain_scans productOperator_tabulates (casted_scans h))

/-- Behind a sum, one token decides whether a relation follows. -/
theorem relation_scans (h : Scans nested) : Scans (Parser.relation nested) := by
  intro r
  refine (additive_scans h r).bind fun {found r₁} _ => ?_
  cases found with
  | none => exact .pure _
  | some left =>
    refine .token ?_
    generalize hop : relationOperator r₁.current.token.lexeme = found
    cases found with
    | none => exact .pure _
    | some op =>
      have hne : r₁.current.lexeme ≠ .endOfInput := by simp [relationOperator_eq_some.1 hop]
      refine .bind (.advance hne) fun {u r₂} _ => ?_
      exact (require_scans (additive_scans h) _ r₂).bind fun _ => .pure _

/-- The loosest level is a chain of conjunctions. -/
theorem disjunction_scans (h : Scans nested) : Scans (disjunction nested) :=
  chain_scans orOperator_tabulates (chain_scans andOperator_tabulates (relation_scans h))

end

theorem expression_scans (depth : Nat) : Scans (Parser.expression depth) := by
  induction depth with
  | zero =>
    intro r
    refine .lexeme ?_
    split
    · exact .fail _
    · exact .pure _
  | succ depth ih => exact disjunction_scans ih

/-! ## Statements -/

/-- The rules for what a statement contains scan. -/
structure NestedScans (nested : Nested) : Prop where
  expression : Scans nested.expression
  block : Scans nested.block

section
variable {nested : Nested}

/-- An expression that has to be there is scanned or missed at the token in its place. -/
theorem NestedScans.requireExpression (h : NestedScans nested) (after : String) :
    Scans (nested.requireExpression after) :=
  require_scans h.expression _

/-- A block that has to be there is scanned or missed at the token in its place. -/
theorem NestedScans.requireBlock (h : NestedScans nested) : Scans nested.requireBlock :=
  require_scans h.block _

/-- A type name starts a declaration, and each further token is expected. -/
theorem declaration_scans (h : NestedScans nested) : Scans (declaration nested) := by
  intro r
  refine (typeAnnotation_scans r).bind fun {found r₁} _ => ?_
  cases found with
  | none => exact .pure _
  | some type =>
    refine (expectIdentifier_scans _ r₁).bind fun {name r₂} _ => ?_
    refine (expect_scans _ _ r₂).bind fun {u r₃} _ => ?_
    exact (h.requireExpression _ r₃).bind fun _ => .pure _

/-- Behind a name, one token tells an assignment from a call. -/
theorem assignmentOrCall_scans (h : NestedScans nested) (position : Position) (name : String) :
    Scans (assignmentOrCall nested position name) := by
  intro r
  refine (callArguments_scans h.expression name r).bind fun {found r₁} _ => ?_
  cases found with
  | some arguments =>
    refine .lexeme ?_
    split
    · exact .fail _
    · exact .pure _
  | none =>
    refine (accept_scans _ r₁).bind fun {b r₂} _ => ?_
    split
    · exact (h.requireExpression _ r₂).bind fun _ => .pure _
    · exact .fail _

/-- Behind the block of a condition, one token decides whether another block follows. -/
theorem conditional_scans (h : NestedScans nested) (position : Position) :
    Scans (conditional nested position) := by
  intro r
  refine (h.requireExpression _ r).bind fun {test r₁} _ => ?_
  refine (h.requireBlock r₁).bind fun {thenBlock r₂} _ => ?_
  refine (acceptKeyword_scans _ r₂).bind fun {b r₃} _ => ?_
  split
  · exact (h.requireBlock r₃).bind fun _ => .pure _
  · exact .pure _

theorem loop_scans (h : NestedScans nested) (position : Position) :
    Scans (loop nested position) := by
  intro r
  refine (h.requireExpression _ r).bind fun {test r₁} _ => ?_
  exact (h.requireBlock r₁).bind fun _ => .pure _

/-- Behind `return`, the next token and the line before it decide whether a value follows. -/
theorem giveBack_scans (h : NestedScans nested) (position : Position) :
    Scans (Parser.giveBack nested position) := by
  intro r
  refine .newlineBefore ?_
  split
  · exact .pure _
  · exact (h.expression r).bind fun _ => .pure _

/-- What a case does is a block if a brace starts it, and an expression otherwise. -/
theorem caseOutput_scans (h : NestedScans nested) : Scans (caseOutput nested) := by
  intro r
  refine (h.block r).bind fun {found r₁} _ => ?_
  cases found with
  | some block => exact .pure _
  | none => exact (h.requireExpression _ r₁).bind fun _ => .pure _

/-- A test starts with a relation or with the expression itself. -/
theorem caseTest_scans (h : NestedScans nested) : Scans (caseTest nested) := by
  intro r
  refine .lexeme ?_
  generalize hop : relationOperator r.current.lexeme = found
  cases found with
  | some op =>
    have hne : r.current.lexeme ≠ .endOfInput := by simp [relationOperator_eq_some.1 hop]
    refine .bind (.advance hne) fun {u r₁} _ => ?_
    exact (h.requireExpression _ r₁).bind fun _ => .pure _
  | none => exact (h.expression r).bind fun _ => .pure _

/-- A case starts with `default` or with a test. -/
theorem switchCase_scans (h : NestedScans nested) : Scans (switchCase nested) := by
  intro r
  refine .token ?_
  refine (acceptKeyword_scans _ r).bind fun {b r₁} _ => ?_
  split
  · refine (expect_scans _ _ r₁).bind fun {u r₂} _ => ?_
    exact (caseOutput_scans h r₂).bind fun _ => .pure _
  · refine (caseTest_scans h r₁).bind fun {found r₂} _ => ?_
    cases found with
    | none => exact .pure _
    | some test =>
      refine (expect_scans _ _ r₂).bind fun {u r₃} _ => ?_
      exact (caseOutput_scans h r₃).bind fun _ => .pure _

/-- The head of a choice declares guards or has a subject. -/
theorem choiceHead_scans (h : NestedScans nested) : Scans (choiceHead nested) := by
  intro r
  refine (declaration_scans h r).bind fun {found r₁} _ => ?_
  cases found with
  | some first =>
    exact (moreAfterCommas_scans (require_scans (declaration_scans h) _) r₁).bind fun _ => .pure _
  | none => exact (h.expression r₁).bind fun _ => .pure _

/-- The cases of a choice are separated by commas and end with a brace. -/
theorem choiceCases_scans (h : NestedScans nested) : Scans (choiceCases nested) := by
  intro r
  have hcase := switchCase_scans h
  refine (expect_scans _ _ r).bind fun {u r₁} _ => ?_
  refine (require_scans hcase _ r₁).bind fun {first r₂} _ => ?_
  refine (moreAfterCommas_scans (require_scans hcase _) r₂).bind fun {more r₃} _ => ?_
  exact (expect_scans _ _ r₃).bind fun _ => .pure _

theorem choice_scans (h : NestedScans nested) (position : Position) :
    Scans (choice nested position) := by
  intro r
  refine (choiceHead_scans h r).bind fun {head r₁} _ => ?_
  exact (choiceCases_scans h r₁).bind fun _ => .pure _

/-- **Statements look at one token ahead**: their first token decides which one it is. -/
theorem statement_scans (h : NestedScans nested) : Scans (statement nested) := by
  intro r
  refine .token ?_
  generalize hl : r.current.token.lexeme = l
  have started : ∀ {rule : Parse Statement}, l ≠ .endOfInput → Scans rule →
      ScansAt (advance >>= fun _ => rule >>= fun s => pure (some s)) r := by
    intro rule hne hrule
    refine .bind (.advance (by rwa [Lookahead.lexeme, hl])) fun {u r₁} _ => ?_
    exact (hrule r₁).bind fun _ => .pure _
  split
  · exact (declaration_scans h r).bind fun _ => .pure _
  · exact started (by simp) (assignmentOrCall_scans h _ _)
  · exact started (by simp) (conditional_scans h _)
  · exact started (by simp) (loop_scans h _)
  · exact started (by simp) (choice_scans h _)
  · exact started (by simp) (giveBack_scans h _)
  · exact .pure _

end

section
variable {nested : Nested} {E : Phrase Expression} {B : Phrase Block} {r : Reader}

/-- At the end of the input a closing brace is missing, whatever the bound. -/
theorem statements_at_end (h : r.current.lexeme = .endOfInput) (fuel : Nat) :
    statements nested fuel r = fail .expectedRightBrace r := by
  cases fuel with
  | zero => rfl
  | succ fuel =>
    rw [statements, bind_of_ok (accept_of_ne (by simp [h]))]
    simp only [Bool.false_eq_true, if_false]
    rw [lexeme_bind, if_pos h]

/-- A statement that is built has consumed a token. -/
theorem statement_moves (h : NestedSound nested E B) {s : Statement} {r' : Reader}
    (hr : statement nested r = .ok (some s, r')) : r'.upcoming.length < r.upcoming.length := by
  obtain ⟨ts, hts, hs⟩ := statement_built h hr
  obtain ⟨t, ts', rfl, -⟩ := statement_first _ _ hs
  exact hts.upcoming_lt

/-- Each statement of a block consumes a token before the rest of the block is read. -/
theorem statements_consumes (h : NestedSound nested E B) :
    Consumes (fun fuel (_ : Unit) => statements nested fuel) fun next _ => do
      if ← accept .rightBrace then return []
      else if (← lexeme) = .endOfInput then fail .expectedRightBrace
      else
        match ← statement nested with
        | some first => return first :: (← next ())
        | none => fail (.unknownStatement (← (← lexeme).describe)) where
  succ _ _ := rfl
  congr {next next' _ r} hnext := by
    refine bind_congr_at fun {b r₁} hb => ?_
    rcases accept_inv hb with ⟨rfl, -, -⟩ | ⟨rfl, -, rfl⟩
    · rfl
    · simp only [Bool.false_eq_true, if_false]
      rw [lexeme_bind, lexeme_bind]
      split
      · rfl
      · refine bind_congr_at fun {found r₂} hfound => ?_
        cases found with
        | none => rfl
        | some first => exact bind_congr_first (hnext () r₂ (statement_moves h hfound))
  at_end hend _ _ := (statements_at_end hend _).trans (statements_at_end hend 0).symm

/-- A bound that is not below the number of tokens to come is never reached. -/
theorem statements_enough (h : NestedSound nested E B) {fuel fuel' : Nat} {r : Reader}
    (hfuel : r.upcoming.length ≤ fuel) (hfuel' : r.upcoming.length ≤ fuel') :
    statements nested fuel r = statements nested fuel' r :=
  (statements_consumes h).enough (s := ()) hfuel hfuel'

/-- The statements of a block, without a bound for their number. -/
def statementsOn (nested : Nested) : Parse (List Statement) := do
  statements nested ((← budget) + 1)

/-- The statements of a block, one round of their loop. -/
theorem statementsOn_eq (h : NestedSound nested E B) :
    statementsOn nested = (do
      if ← accept .rightBrace then return []
      else if (← lexeme) = .endOfInput then fail .expectedRightBrace
      else
        match ← statement nested with
        | some first => return first :: (← statementsOn nested)
        | none => fail (.unknownStatement (← (← lexeme).describe))) :=
  (statements_consumes h).unrolled (fun _ => statementsOn nested)
    (fun _ _ => budget_bind) (fun _ => Nat.le_succ_of_le upcoming_le_budget) ()

/-- The statements of a block are scanned, by induction on the tokens to come. -/
theorem statementsOn_scans (h : NestedScans nested) (hs : NestedSound nested E B) :
    Scans (statementsOn nested) := by
  intro r
  induction hn : r.upcoming.length using Nat.strong_induction_on generalizing r with
  | _ n ih =>
    rw [statementsOn_eq hs]
    refine (accept_scans _ r).bind fun {b r₁} hb => ?_
    rcases accept_inv hb with ⟨rfl, -, -⟩ | ⟨rfl, -, rfl⟩
    · exact .pure _
    · simp only [Bool.false_eq_true, if_false]
      refine .lexeme ?_
      split
      · exact .fail _
      · refine (statement_scans h r₁).bind fun {found r₂} hfound => ?_
        cases found with
        | none => exact .lexeme (failShowing_scans _ r₂)
        | some first =>
          have hlt := statement_moves hs hfound
          exact (ih _ (hn ▸ hlt) r₂ rfl).bind fun _ => .pure _

/-- A block is scanned from its opening brace to its closing one. -/
theorem blockOf_scans (h : NestedScans nested) (hs : NestedSound nested E B) :
    Scans (blockOf nested) := by
  intro r
  refine .token ?_
  refine (accept_scans _ r).bind fun {b r₁} _ => ?_
  split
  · have hloop := (statementsOn_scans h hs r₁).bind
      (f := fun ss => pure (some (Block.mk r.current.token.position ss))) fun _ => .pure _
    exact hloop.congr fun s _ => rfl
  · exact .pure _

end

/-- What is nested up to a depth is built as the grammar of that depth has it. -/
theorem nestedUpTo_sound (depth : Nat) :
    NestedSound (nestedUpTo depth) (ExpressionPhrase depth) (BlockPhrase depth) :=
  ⟨expression_sound depth, expression_first depth, block_sound depth⟩

/-- **Blocks look at one token ahead**, at every depth. -/
theorem block_scans (depth : Nat) : Scans (Parser.block depth) := by
  induction depth with
  | zero =>
    intro r
    refine .lexeme ?_
    split
    · exact .fail _
    · exact .pure _
  | succ depth ih =>
    exact blockOf_scans ⟨expression_scans depth, ih⟩ (nestedUpTo_sound depth)

/-! ## Functions and programs -/

/-- Parameters that share a type are scanned up to that type. -/
theorem parameterGroup_scans : Scans parameterGroup := by
  intro r
  refine .token ?_
  generalize hl : r.current.token.lexeme = l
  split
  · refine .bind (.advance (by simp [hl])) fun {u r₁} _ => ?_
    refine (moreAfterCommas_scans (expectIdentifier_scans _) r₁).bind fun {more r₂} _ => ?_
    exact (require_scans typeAnnotation_scans _ r₂).bind fun _ => .pure _
  · exact .pure _

/-- Groups of parameters are scanned as far as commas go. -/
theorem parameters_scans : Scans parameters := by
  intro r
  refine (parameterGroup_scans r).bind fun {found r₁} _ => ?_
  cases found with
  | none => exact .pure _
  | some first =>
    exact (moreAfterCommas_scans (require_scans parameterGroup_scans _) r₁).bind fun _ => .pure _

section
variable {nested : Nested} {B : Phrase Block} {r : Reader}

/-- A function is scanned from its name to the end of its body. -/
theorem functionOf_scans (h : Scans nested.block) : Scans (functionOf nested) := by
  intro r
  refine .token ?_
  generalize hl : r.current.token.lexeme = l
  split
  · refine .bind (.advance (by simp [hl])) fun {u r₁} _ => ?_
    refine (expect_scans _ _ r₁).bind fun {u r₂} _ => ?_
    refine (parameters_scans r₂).bind fun {ps r₃} _ => ?_
    refine (expect_scans _ _ r₃).bind fun {u r₄} _ => ?_
    refine (typeAnnotation_scans r₄).bind fun {type r₅} _ => ?_
    exact (require_scans h _ r₅).bind fun _ => .pure _
  · exact .pure _

/-- A function that is built has consumed a token. -/
theorem function_moves (h : RuleSound nested.block B (isMark .leftBrace)) {f : Function}
    {r' : Reader} (hr : functionOf nested r = .ok (some f, r')) :
    r'.upcoming.length < r.upcoming.length := by
  obtain ⟨ts, hts, hf⟩ := (functionOf_sound h).built hr
  obtain ⟨t, ts', rfl, -⟩ := function_first _ _ hf
  exact hts.upcoming_lt

/-- A function that is built has the position of its name, which has been read. -/
theorem function_name (h : RuleSound nested.block B (isMark .leftBrace)) {f : Function}
    {r' : Reader} (hr : functionOf nested r = .ok (some f, r')) :
    ∃ name : Lookahead, f.position = name.position ∧ ∀ {ts}, Reads r ts r' → name ∈ ts := by
  obtain ⟨ts, hts, hf⟩ := (functionOf_sound h).built hr
  cases hf with
  | @intro name _ _ _ _ _ _ _ _ _ _ _ _ _ _ _ =>
    refine ⟨name, rfl, fun {ts'} hts' => ?_⟩
    have heq := hts'.upcoming_eq.symm.trans hts.upcoming_eq
    rw [List.append_cancel_right heq]
    simp

/-- At the end of the input no function follows, whatever the bound. -/
theorem functions_at_end (h : r.current.lexeme = .endOfInput) (fuel : Nat) (defined : Program) :
    functions nested fuel defined r = .ok (defined, r) := by
  cases fuel with
  | zero => rfl
  | succ fuel =>
    have hno : functionOf nested r = .ok (none, r) := by
      rw [functionOf, token_bind]
      simp only [h]
      rfl
    rw [functions, bind_of_ok hno]
    rfl

/-- Each function consumes a token before the next one is read. -/
theorem functions_consumes (h : RuleSound nested.block B (isMark .leftBrace)) :
    Consumes (functions nested) fun next defined => do
      match ← functionOf nested with
      | none => return defined
      | some function =>
        match defined.find? function.name with
        | some earlier =>
          failAt function.position (.functionRedefinition function.name earlier.position)
        | none => next ⟨defined.functions ++ [function]⟩ where
  succ _ _ := rfl
  congr {next next' defined r} hnext := by
    refine bind_congr_at fun {found r₁} hfound => ?_
    cases found with
    | none => rfl
    | some function =>
      simp only
      cases defined.find? function.name with
      | some earlier => rfl
      | none => exact hnext _ r₁ (function_moves h hfound)
  at_end hend _ _ := (functions_at_end hend _ _).trans (functions_at_end hend 0 _).symm

/-- A bound that is not below the number of tokens to come is never reached. -/
theorem functions_enough (h : RuleSound nested.block B (isMark .leftBrace)) {fuel fuel' : Nat}
    {defined : Program} {r : Reader} (hfuel : r.upcoming.length ≤ fuel)
    (hfuel' : r.upcoming.length ≤ fuel') :
    functions nested fuel defined r = functions nested fuel' defined r :=
  (functions_consumes h).enough hfuel hfuel'

/-- Further functions, without a bound for their number. -/
def functionsOn (nested : Nested) (defined : Program) : Parse Program := do
  functions nested (← budget) defined

/-- Further functions, one round of their loop. -/
theorem functionsOn_eq (h : RuleSound nested.block B (isMark .leftBrace)) (defined : Program) :
    functionsOn nested defined = (do
      match ← functionOf nested with
      | none => return defined
      | some next =>
        match defined.find? next.name with
        | some earlier =>
          failAt next.position (.functionRedefinition next.name earlier.position)
        | none => functionsOn nested ⟨defined.functions ++ [next]⟩) :=
  (functions_consumes h).unrolled (functionsOn nested)
    (fun _ _ => budget_bind) (fun _ => upcoming_le_budget) defined

/-- Functions are scanned up to the first one whose name is defined already, which is refused at its
end. -/
theorem functionsOn_scans (h : Scans nested.block)
    (hs : RuleSound nested.block B (isMark .leftBrace)) (defined : Program) :
    Scans (functionsOn nested defined) := by
  intro r
  induction hn : r.upcoming.length using Nat.strong_induction_on generalizing r defined with
  | _ n ih =>
    rw [functionsOn_eq hs]
    by_cases hknown : ∃ next r₁ earlier, functionOf nested r = .ok (some next, r₁) ∧
        defined.find? next.name = some earlier
    · obtain ⟨next, r₁, earlier, hfound, hfind⟩ := hknown
      obtain ⟨name, hposition, hname⟩ := function_name hs hfound
      refine (functionOf_scans h r).refuse hfound hname next.name earlier.position ?_
      simp only [hfind, hposition]
    · refine (functionOf_scans h r).bind fun {found r₁} hfound => ?_
      cases found with
      | none => exact .pure _
      | some next =>
        simp only
        cases hfind : defined.find? next.name with
        | some earlier => exact absurd ⟨next, r₁, earlier, hfound, hfind⟩ hknown
        | none => exact ih _ (hn ▸ function_moves hs hfound) _ r₁ rfl

/-- **The parser looks at one token ahead of what it has read.** -/
theorem programOf_scans (h : Scans nested.block)
    (hs : RuleSound nested.block B (isMark .leftBrace)) : Scans (programOf nested) := by
  intro r
  have hloop := (functionsOn_scans h hs ⟨[]⟩ r).bind
    (f := fun found => do
      let lexeme ← lexeme
      if lexeme = .endOfInput then return found else fail (.noEtxToken (← lexeme.describe)))
    fun {found r₁} _ => ?_
  · exact hloop.congr fun s _ => rfl
  · refine .lexeme ?_
    split
    · exact .pure _
    · exact failShowing_scans _ r₁

end

end FLang
