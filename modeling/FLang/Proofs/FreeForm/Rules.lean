import FLang.Proofs.FreeForm.Readers

/-!
# Layout does not matter

Every rule of the parser does the same on texts that differ in layout only, if the rules for what is
nested in it do. The one rule that asks where a line ends is that of `return`: it runs behind the
keyword, where both texts answer alike (`giveBack_alike`).

So two texts of the same significant tokens, with the same line ends behind every `return`, have the
same program up to positions, or the same syntax error (`parse_ignores_layout`).
-/

namespace FLang

open Grammar Parse FLang.Parser

/-! ## Lists of trees without positions -/

/-- Leaving out positions in expressions, one by one. -/
theorem Expression.eraseAll_eq_map (es : List Expression) :
    Expression.eraseAll es = es.map Expression.erase := by
  induction es with
  | nil => rfl
  | cons e es ih => rw [eraseAll, ih, List.map_cons]

/-- Leaving out positions in statements, one by one. -/
theorem Statement.eraseAll_eq_map (ss : List Statement) :
    Statement.eraseAll ss = ss.map Statement.erase := by
  induction ss with
  | nil => rfl
  | cons s ss ih => rw [eraseAll, ih, List.map_cons]

/-- Leaving out positions in cases, one by one. -/
theorem Case.eraseAll_eq_map (arms : List Case) : Case.eraseAll arms = arms.map Case.erase := by
  induction arms with
  | nil => rfl
  | cons arm arms ih => rw [eraseAll, ih, List.map_cons]

theorem typeAnnotation_layoutFree : LayoutFree (Option.map id) typeAnnotation := by
  refine .lexeme fun l => ?_
  split
  · exact .advance (.pure rfl)
  · exact .pure rfl

/-! ## Expressions -/

/-- A rule for expressions that does not depend on layout. -/
abbrev ExpressionsFree (rule : Parse (Option Expression)) : Prop :=
  LayoutFree (Option.map Expression.erase) rule

section
variable {nested : Parse (Option Expression)}

theorem argumentList_layoutFree (h : ExpressionsFree nested) (name : String) :
    LayoutFree (List.map Expression.erase) (argumentList nested name) := by
  refine h.bindOption (.pure rfl) fun e e' he => ?_
  refine (moreAfterCommas_layoutFree (require_layoutFree h _)).bind fun es es' hes => .pure ?_
  rw [List.map_cons, List.map_cons, he, hes]

/-- Arguments do not depend on layout, and neither does the error where their parenthesis is
missing. -/
theorem callArguments_layoutFree (h : ExpressionsFree nested) (name : String) :
    LayoutFree (Option.map (List.map Expression.erase)) (callArguments nested name) := by
  refine (accept_layoutFree _).bindSame fun b => .ite ?_ (.pure rfl)
  refine (argumentList_layoutFree h name).bind fun es es' hes => ?_
  refine (expect_layoutFree _ _).bindSame fun _ => .pure ?_
  simp [hes]

/-- A term keeps the position of its first token, which is left out. -/
theorem term_layoutFree (h : ExpressionsFree nested) : ExpressionsFree (term nested) := by
  refine .token fun l position position' => ?_
  dsimp only
  split
  · exact .advance (.pure rfl)
  · refine .advance ((callArguments_layoutFree h _).bindOption (.pure rfl) fun es es' hes => ?_)
    exact .pure (by simp [Expression.erase, Expression.eraseAll_eq_map, hes])
  · refine .advance ((require_layoutFree h _).bind fun e e' he => ?_)
    exact (expect_layoutFree _ _).bindSame fun _ => .pure (by simp [he])
  · exact .pure rfl

theorem unary_layoutFree (h : ExpressionsFree nested) : ExpressionsFree (unary nested) := by
  refine .token fun l position position' => .ite ?_ (term_layoutFree h)
  refine .advance ((require_layoutFree (term_layoutFree h) _).bind fun e e' he => .pure ?_)
  simp [Expression.erase, he]

/-- A cast keeps the position of its keyword, which is left out. -/
theorem casted_layoutFree (h : ExpressionsFree nested) : ExpressionsFree (casted nested) := by
  refine (unary_layoutFree h).bindOption (.pure rfl) fun e e' he => ?_
  refine .token fun l position position' => (acceptKeyword_layoutFree _).bindSame fun b => ?_
  refine .ite ?_ (.pure (by simp [he]))
  refine (require_layoutFree typeAnnotation_layoutFree _).bindSame fun type => .pure ?_
  simp [Expression.erase, he]

/-- Chains go on in step from operands that are the same up to positions. -/
theorem chainFrom_inStep {operatorOf : Lexeme → Option BinaryOperator}
    {operand : Parse (Option Expression)} (h : ExpressionsFree operand) (fuel : Nat)
    {left left' : Expression} (hleft : left'.erase = left.erase) :
    InStep Expression.erase (chainFrom operatorOf operand fuel left)
      (chainFrom operatorOf operand fuel left') := by
  induction fuel generalizing left left' with
  | zero => exact .pure hleft
  | succ fuel ih =>
    refine .token fun l position position' => ?_
    dsimp only
    split
    · exact .pure hleft
    · refine .advance ((require_layoutFree h _).bind fun right right' hright => ih ?_)
      simp [Expression.erase, hleft, hright]

theorem chain_layoutFree {operatorOf : Lexeme → Option BinaryOperator}
    {operand : Parse (Option Expression)} (h : ExpressionsFree operand) :
    ExpressionsFree (chain operatorOf operand) := by
  refine h.bindOption (.pure rfl) fun left left' hleft => .budget fun fuel => ?_
  exact (chainFrom_inStep h fuel hleft).bind fun e e' he => .pure (by simp [he])

theorem additive_layoutFree (h : ExpressionsFree nested) : ExpressionsFree (additive nested) :=
  chain_layoutFree (chain_layoutFree (casted_layoutFree h))

/-- A relation keeps the position of its operator, which is left out. -/
theorem relation_layoutFree (h : ExpressionsFree nested) :
    ExpressionsFree (Parser.relation nested) := by
  refine (additive_layoutFree h).bindOption (.pure rfl) fun left left' hleft => ?_
  refine .token fun l position position' => ?_
  dsimp only
  split
  · exact .pure (by simp [hleft])
  · refine .advance ((require_layoutFree (additive_layoutFree h) _).bind ?_)
    intro right right' hright
    exact .pure (by simp [Expression.erase, hleft, hright])

theorem disjunction_layoutFree (h : ExpressionsFree nested) :
    ExpressionsFree (disjunction nested) :=
  chain_layoutFree (chain_layoutFree (relation_layoutFree h))

end

/-- **Expressions do not depend on layout**, at every depth. -/
theorem expression_layoutFree (depth : Nat) : ExpressionsFree (Parser.expression depth) := by
  induction depth with
  | zero => exact .lexeme fun _ => .ite (.fail rfl) (.pure rfl)
  | succ depth ih => exact disjunction_layoutFree ih

/-! ## Statements -/

/-- The rules for what a statement contains do not depend on layout. -/
structure NestedFree (nested : Nested) : Prop where
  expression : ExpressionsFree nested.expression
  block : LayoutFree (Option.map Block.erase) nested.block

section
variable {nested : Nested}

/-- An expression that has to be there is found in both layouts or missed in both. -/
theorem NestedFree.requireExpression (h : NestedFree nested) (after : String) :
    LayoutFree Expression.erase (nested.requireExpression after) :=
  require_layoutFree h.expression _

/-- A block that has to be there is found in both layouts or missed in both. -/
theorem NestedFree.requireBlock (h : NestedFree nested) :
    LayoutFree Block.erase nested.requireBlock :=
  require_layoutFree h.block _

/-- A declaration keeps the position of its name, which is left out. -/
theorem declaration_layoutFree (h : NestedFree nested) :
    LayoutFree (Option.map Declaration.erase) (declaration nested) := by
  refine typeAnnotation_layoutFree.bindOption (.pure rfl) ?_
  rintro type type' (rfl : type' = type)
  refine (expectIdentifier_layoutFree _).bind ?_
  rintro ⟨position, name⟩ ⟨position', name'⟩ (rfl : name' = name)
  refine (expect_layoutFree _ _).bindSame fun _ => ?_
  refine (h.requireExpression _).bind fun e e' he => .pure ?_
  simp [Declaration.erase, he]

variable (position position' : Position)

/-- What follows a name is the same statement from either position. -/
theorem assignmentOrCall_inStep (h : NestedFree nested) (name : String) :
    InStep Statement.erase (assignmentOrCall nested position name)
      (assignmentOrCall nested position' name) := by
  refine (callArguments_layoutFree h.expression name).bindOption ?_ fun es es' hes => ?_
  · refine (accept_layoutFree _).bindSame fun b => .ite ?_ (.fail rfl)
    exact (h.requireExpression _).bind fun e e' he => .pure (by simp [Statement.erase, he])
  · refine .lexeme fun l => .ite (.fail rfl) (.pure ?_)
    simp [Statement.erase, Expression.eraseAll_eq_map, hes]

/-- Conditions are read in step from either position. -/
theorem conditional_inStep (h : NestedFree nested) :
    InStep Statement.erase (conditional nested position) (conditional nested position') := by
  refine (h.requireExpression _).bind fun e e' he => h.requireBlock.bind fun b b' hb => ?_
  refine (acceptKeyword_layoutFree _).bindSame fun found => .ite ?_ (.pure ?_)
  · exact h.requireBlock.bind fun c c' hc => .pure (by simp [Statement.erase, he, hb, hc])
  · simp [Statement.erase, he, hb]

/-- Loops are read in step from either position. -/
theorem loop_inStep (h : NestedFree nested) :
    InStep Statement.erase (loop nested position) (loop nested position') := by
  refine (h.requireExpression _).bind fun e e' he => h.requireBlock.bind fun b b' hb => ?_
  exact .pure (by simp [Statement.erase, he, hb])

/-- A value behind `return` is looked for in both texts or in none, if a line ends in both or in
none. -/
theorem giveBack_alike (h : NestedFree nested) {r r' : Reader} (hr : r.Alike r')
    (hline : r'.current.newlineBefore = r.current.newlineBefore) :
    ReadAlike Statement.erase (Parser.giveBack nested position r)
      (Parser.giveBack nested position' r') := by
  unfold Parser.giveBack
  rw [newlineBefore_bind, newlineBefore_bind, hline]
  have hstep : ∀ line : Bool, InStep Statement.erase
      (if line then return .giveBack position none
        else return .giveBack position (← nested.expression) : Parse Statement)
      (if line then return .giveBack position' none
        else return .giveBack position' (← nested.expression)) := by
    intro line
    refine .ite (.pure rfl) (h.expression.bind fun e e' he => .pure ?_)
    simp [Statement.erase, he]
  exact hstep _ hr

theorem caseOutput_layoutFree (h : NestedFree nested) :
    LayoutFree CaseOutput.erase (caseOutput nested) := by
  refine h.block.bindOption ?_ fun b b' hb => .pure (by simp [CaseOutput.erase, hb])
  exact (h.requireExpression _).bind fun e e' he => .pure (by simp [CaseOutput.erase, he])

/-- The relation of a test is the same in both layouts, and its value is up to positions. -/
theorem caseTest_layoutFree (h : NestedFree nested) :
    LayoutFree (Option.map (Prod.map id Expression.erase)) (caseTest nested) := by
  refine .lexeme fun l => ?_
  split
  · exact .advance ((h.requireExpression _).bind fun e e' he => .pure (by simp [he]))
  · refine h.expression.bindOption (.pure rfl) fun e e' he => .pure ?_
    simp [he]

/-- A case keeps the position of its first token, which is left out. -/
theorem switchCase_layoutFree (h : NestedFree nested) :
    LayoutFree (Option.map Case.erase) (switchCase nested) := by
  refine .token fun l position position' => (acceptKeyword_layoutFree _).bindSame fun b => ?_
  refine .ite ?_ ((caseTest_layoutFree h).bindOption (.pure rfl) ?_)
  · refine (expect_layoutFree _ _).bindSame fun _ => ?_
    exact (caseOutput_layoutFree h).bind fun o o' ho => .pure (by simp [Case.erase, ho])
  · rintro ⟨relation, e⟩ ⟨relation', e'⟩ he
    obtain ⟨rfl, hvalue⟩ : relation' = relation ∧ e'.erase = e.erase := Prod.mk.inj he
    refine (expect_layoutFree _ _).bindSame fun _ => ?_
    exact (caseOutput_layoutFree h).bind fun o o' ho => .pure (by simp [Case.erase, hvalue, ho])

/-- Guards and subject of a choice do not depend on layout. -/
theorem choiceHead_layoutFree (h : NestedFree nested) :
    LayoutFree (Prod.map (List.map Declaration.erase) (Option.map Expression.erase))
      (choiceHead nested) := by
  refine (declaration_layoutFree h).bindOption ?_ fun d d' hd => ?_
  · exact h.expression.bind fun e e' he => .pure (by simp [he])
  · refine (moreAfterCommas_layoutFree (require_layoutFree (declaration_layoutFree h) _)).bind ?_
    exact fun ds ds' hds => .pure (by simp [hd, hds])

/-- Cases do not depend on layout. -/
theorem choiceCases_layoutFree (h : NestedFree nested) :
    LayoutFree (List.map Case.erase) (choiceCases nested) := by
  have hcase := fun cause => require_layoutFree (switchCase_layoutFree h) cause
  refine (expect_layoutFree _ _).bindSame fun _ => (hcase _).bind fun arm arm' harm => ?_
  refine (moreAfterCommas_layoutFree (hcase _)).bind fun arms arms' harms => ?_
  exact (expect_layoutFree _ _).bindSame fun _ => .pure (by simp [harm, harms])

/-- Choices are read in step from either position. -/
theorem choice_inStep (h : NestedFree nested) :
    InStep Statement.erase (choice nested position) (choice nested position') := by
  refine (choiceHead_layoutFree h).bind ?_
  rintro ⟨guards, subject⟩ ⟨guards', subject'⟩ hhead
  obtain ⟨hguards, hsubject⟩ := Prod.mk.inj hhead
  refine (choiceCases_layoutFree h).bind fun arms arms' harms => .pure ?_
  simp [Statement.erase, Case.eraseAll_eq_map, hguards, hsubject, harms]

/-- **Statements do not depend on layout**, but for the line behind a `return`. -/
theorem statement_layoutFree (h : NestedFree nested) :
    LayoutFree (Option.map Statement.erase) (statement nested) := by
  intro r r' hr
  have started : ∀ {rule rule' : Parse Statement}, InStep Statement.erase rule rule' →
      ReadAlike (Option.map Statement.erase)
        ((advance >>= fun _ => rule >>= fun s => pure (some s)) r)
        ((advance >>= fun _ => rule' >>= fun s => pure (some s)) r') := by
    intro rule rule' hrule
    exact InStep.advance (hrule.bind fun s s' hs => .pure (by simp [hs])) hr
  refine InStep.token_at hr fun l position position' hl => ?_
  dsimp only
  split
  · have hstep : LayoutFree (Option.map Statement.erase)
        (do return (← declaration nested).map .declaration) :=
      (declaration_layoutFree h).bindOption (.pure rfl) fun d d' hd =>
        .pure (by simp [Statement.erase, hd])
    exact hstep hr
  · exact started (assignmentOrCall_inStep _ _ h _)
  · exact started (conditional_inStep _ _ h)
  · exact started (loop_inStep _ _ h)
  · exact started (choice_inStep _ _ h)
  · -- the only statement that depends on where lines end
    refine InStep.advance_return hr hl fun hr₁ hline => ?_
    refine InStep.bind_at (giveBack_alike _ _ h hr₁ hline) fun _ _ hs hr₂ => .ok ?_ hr₂
    simp [hs]
  · exact InStep.pure rfl hr

/-- Statements of a block are read in step, by induction on their bound. -/
theorem statements_layoutFree (h : NestedFree nested) (fuel : Nat) :
    LayoutFree (List.map Statement.erase) (statements nested fuel) := by
  induction fuel with
  | zero => exact .fail rfl
  | succ fuel ih =>
    refine (accept_layoutFree _).bindSame fun b => .ite (.pure rfl) ?_
    refine .lexeme fun l => .ite (.fail rfl) ?_
    refine (statement_layoutFree h).bindOption ?_ fun s s' hs => ?_
    · exact .lexeme fun l => .failShowing _ l
    · exact ih.bind fun ss ss' hss => .pure (by simp [hs, hss])

theorem blockOf_layoutFree (h : NestedFree nested) :
    LayoutFree (Option.map Block.erase) (blockOf nested) := by
  refine .token fun l position position' => (accept_layoutFree _).bindSame fun b => ?_
  refine .ite (.budget fun fuel => ?_) (.pure rfl)
  refine (statements_layoutFree h _).bind fun ss ss' hss => .pure ?_
  simp [Block.erase, Statement.eraseAll_eq_map, hss]

end

/-- **Blocks do not depend on layout**, at every depth. -/
theorem block_layoutFree (depth : Nat) :
    LayoutFree (Option.map Block.erase) (Parser.block depth) := by
  induction depth with
  | zero => exact .lexeme fun _ => .ite (.fail rfl) (.pure rfl)
  | succ depth ih => exact blockOf_layoutFree ⟨expression_layoutFree depth, ih⟩

/-! ## Functions and programs -/

/-- Parameters keep the positions of their names, which are left out. -/
theorem parameterGroup_layoutFree :
    LayoutFree (Option.map (List.map Parameter.erase)) parameterGroup := by
  refine .token fun l position position' => ?_
  dsimp only
  split
  · refine .advance ((moreAfterCommas_layoutFree (expectIdentifier_layoutFree _)).bind ?_)
    intro names names' hnames
    refine (require_layoutFree typeAnnotation_layoutFree _).bindSame fun type => .pure ?_
    -- the parameters of a group are made of their names
    have hgroup : ∀ names : List (Position × String),
        (names.map fun n => (⟨n.1, n.2, type⟩ : Parameter)).map Parameter.erase =
          (names.map Prod.snd).map fun name => ⟨.start, name, type⟩ := by
      intro names
      simp [Parameter.erase]
    simp only [Option.map_some, List.map_cons, hgroup, hnames]
    rfl
  · exact .pure rfl

theorem parameters_layoutFree : LayoutFree (List.map Parameter.erase) parameters := by
  refine parameterGroup_layoutFree.bindOption (.pure rfl) fun ps ps' hps => ?_
  refine (moreAfterCommas_layoutFree (require_layoutFree parameterGroup_layoutFree _)).bind ?_
  intro more more' hmore
  exact .pure (by simp [List.map_flatten, hps, hmore])

section
variable {nested : Nested}

/-- Functions do not depend on layout. -/
theorem functionOf_layoutFree (h : NestedFree nested) :
    LayoutFree (Option.map Function.erase) (functionOf nested) := by
  refine .token fun l position position' => ?_
  dsimp only
  split
  · refine .advance ((expect_layoutFree _ _).bindSame fun _ => ?_)
    refine parameters_layoutFree.bind fun ps ps' hps => ?_
    refine (expect_layoutFree _ _).bindSame fun _ => typeAnnotation_layoutFree.bind ?_
    intro type type' htype
    obtain rfl : type' = type := by simpa using htype
    exact h.requireBlock.bind fun b b' hb => .pure (by simp [Function.erase, hps, hb])
  · exact .pure rfl

/-- A name that is defined twice is refused in both layouts, with the positions of its
definitions. -/
theorem functions_inStep (h : NestedFree nested) (fuel : Nat) {defined defined' : Program}
    (hdefined : defined'.erase = defined.erase) :
    InStep Program.erase (functions nested fuel defined) (functions nested fuel defined') := by
  induction fuel generalizing defined defined' with
  | zero => exact .pure hdefined
  | succ fuel ih =>
    refine (functionOf_layoutFree h).bindOption (.pure hdefined) fun f f' hf => ?_
    have hname : f'.name = f.name := (Function.mk.inj hf).2.1
    have hfind : (defined'.find? f'.name).map Function.erase =
        (defined.find? f.name).map Function.erase := by
      rw [← Program.find?_erase, ← Program.find?_erase, hdefined, hname]
    rcases hfound : defined.find? f.name with _ | earlier <;>
      rcases hfound' : defined'.find? f'.name with _ | earlier' <;> rw [hfound, hfound'] at hfind
    · simp only [hfound, hfound']
      refine ih ?_
      simpa [Program.erase, hf] using hdefined
    · cases hfind
    · cases hfind
    · simp only [hfound, hfound']
      refine .failAt ?_
      simpa [Diagnostic.Cause.erase] using hname

/-- Programs do not depend on layout. -/
theorem programOf_layoutFree (h : NestedFree nested) :
    LayoutFree Program.erase (programOf nested) := by
  refine .budget fun fuel => (functions_inStep h fuel rfl).bind fun p p' hp => ?_
  exact .lexeme fun l => .ite (.pure hp) (.failShowing _ l)

end

/-- **The parser does not depend on layout**: on readers of one text in two layouts, it finds the
same program up to positions or fails alike. -/
theorem program_layoutFree (nesting : Nat) : LayoutFree Program.erase (Parser.program nesting) :=
  programOf_layoutFree ⟨expression_layoutFree nesting, block_layoutFree nesting⟩

/-! ## Texts in two layouts -/

/-- Readers start alike on tokens that differ in layout only. -/
theorem Reader.ofStream_alike {tokens tokens' : List Token}
    (hlexemes : significantLexemes tokens' = significantLexemes tokens)
    (hbreaks : returnBreaks tokens' = returnBreaks tokens) :
    ∃ r r', Reader.ofStream ⟨tokens, none⟩ = .ok r ∧ Reader.ofStream ⟨tokens', none⟩ = .ok r' ∧
      r.Alike r' := by
  have hsame : SameAhead .endOfInput (significant false tokens) (significant false tokens') :=
    sameAhead_significant hlexemes hbreaks nofun
  simp only [Reader.ofStream]
  generalize significant false tokens = ts, significant false tokens' = ts' at hsame
  cases hsame with
  | nil => exact ⟨_, _, rfl, rfl, rfl, .nil _, rfl⟩
  | cons hl _ hrest => exact ⟨_, _, rfl, rfl, hl, hrest, rfl⟩

/-- The parser finds the same program up to positions in tokens that differ in layout only, or fails
alike. -/
theorem parseTokens_alike (nesting : Nat) {tokens tokens' : List Token}
    (hlexemes : significantLexemes tokens' = significantLexemes tokens)
    (hbreaks : returnBreaks tokens' = returnBreaks tokens) :
    (∃ program program', parseTokens nesting ⟨tokens, none⟩ = .ok program ∧
      parseTokens nesting ⟨tokens', none⟩ = .ok program' ∧ program'.erase = program.erase) ∨
    ∃ fault fault', parseTokens nesting ⟨tokens, none⟩ = .error fault ∧
      parseTokens nesting ⟨tokens', none⟩ = .error fault' ∧ fault'.erase = fault.erase := by
  obtain ⟨r, r', hstart, hstart', hr⟩ := Reader.ofStream_alike hlexemes hbreaks
  rw [parseTokens_eq hstart, parseTokens_eq hstart']
  generalize hx : Parser.program nesting r = x, hx' : Parser.program nesting r' = x'
  have hstep := program_layoutFree nesting hr
  rw [hx, hx'] at hstep
  cases hstep with
  | ok herase _ => exact .inl ⟨_, _, rfl, rfl, herase⟩
  | error herase => exact .inr ⟨_, _, rfl, rfl, herase⟩

variable {limits : Limits} {source source' : String} {tokens tokens' : List Token}

/-- A text that is read to its end has a stream without an error. -/
theorem tokenStream_of_tokenize (h : tokenize limits source = .ok tokens) :
    tokenStream limits source = ⟨tokens, none⟩ := by
  rcases hstream : tokenStream limits source with ⟨found, _ | fault⟩ <;>
    simp only [tokenize, hstream] at h
  · cases h
    rfl
  · cases h

/-- What can be read to its end is refused with a syntax error, unless the limits allow integers
that cannot be shown. -/
theorem parse_error_cases {fault : Fault} (htokens : tokenize limits source = .ok tokens)
    (h : parse limits source = .error fault) :
    (∃ position cause, fault = .grammatical position cause) ∨
      10 ^ Decimal.digitLimit ≤ limits.intLimit ∧ fault = .tooManyDigits none := by
  have hstream := tokenStream_of_tokenize htokens
  rcases parseTokens_error h with ⟨r, ts, r', hstart, -, hread, hfound, -⟩ | hfault
  · cases hfound with
    | here cause => exact .inl ⟨_, _, rfl⟩
    | redefinition id earlier _ => exact .inl ⟨_, _, rfl⟩
    | unshown hshown =>
      refine .inr ⟨?_, describe_error hshown⟩
      obtain ⟨n, hn, hfits⟩ := int_of_describe_error hshown
      rcases TokenStream.Shows.of_reads hstart hread with hshows | ⟨-, -, hend⟩
      · have hcurrent : r'.current ∈ ts ++ [r'.current] := by simp
        have hmem := (mem_significant (hshows.subset hcurrent)).1
        have hlexed : Lexed limits r'.current.lexeme :=
          lexed_of_mem_tokenStreamFrom hmem (by simp [hn])
        rw [hn] at hlexed
        -- a constant is within the limit, so a limit of few digits leaves it few
        refine Nat.le_of_not_lt fun hlimit => ?_
        rw [fits_of_lt (hlexed.int_le.trans_lt hlimit) le_rfl] at hfits
        cases hfits
      · rw [hn] at hend
        cases hend
  · rw [hstream] at hfault
    cases hfault

/-- **Layout is free, but for the line behind a `return`.** Two texts of the same significant
tokens, with a line that ends behind the same `return`s, have the same program up to positions, or
the same syntax error: its code and its details are the same, other than lines and columns. With a
limit for integers that no error message can show, both may fail to show the same one. -/
theorem parse_ignores_layout (htokens : tokenize limits source = .ok tokens)
    (htokens' : tokenize limits source' = .ok tokens')
    (hlexemes : significantLexemes tokens' = significantLexemes tokens)
    (hbreaks : returnBreaks tokens' = returnBreaks tokens) :
    (∃ program program', parse limits source = .ok program ∧ parse limits source' = .ok program' ∧
      program'.erase = program.erase) ∨
    (∃ position position' cause cause',
      parse limits source = .error (.grammatical position cause) ∧
      parse limits source' = .error (.grammatical position' cause') ∧
      cause'.code = cause.code ∧ cause'.detailsElsewhere = cause.detailsElsewhere) ∨
    10 ^ Decimal.digitLimit ≤ limits.intLimit ∧
      parse limits source = .error (.tooManyDigits none) ∧
      parse limits source' = .error (.tooManyDigits none) := by
  have halike := parseTokens_alike limits.nestingLimit hlexemes hbreaks
  rw [← tokenStream_of_tokenize htokens, ← tokenStream_of_tokenize htokens'] at halike
  rcases halike with hprograms | ⟨fault, fault', hparse, hparse', herase⟩
  · exact .inl hprograms
  right
  -- errors that are equal without positions are of the same kind, so two of the four cases cannot
  -- be
  rcases parse_error_cases htokens hparse with ⟨position, cause, rfl⟩ | ⟨hlimit, rfl⟩ <;>
    rcases parse_error_cases htokens' hparse' with ⟨position', cause', rfl⟩ | ⟨-, rfl⟩
  · have hcause : cause'.erase = cause.erase :=
      (Diagnostic.mk.inj (Fault.diagnostic.inj herase)).2.1
    refine .inl ⟨position, position', cause, cause', hparse, hparse', ?_, ?_⟩
    · rw [← cause'.code_erase, hcause, cause.code_erase]
    · rw [← cause'.detailsElsewhere_erase, hcause, cause.detailsElsewhere_erase]
  · cases herase
  · cases herase
  · exact .inr ⟨hlimit, hparse, hparse'⟩

/-- A function on one line. -/
def compactSource : String :=
  "sign(x int) int \x7b if x < 0 \x7b return -1 \x7d return 1 \x7d"

/-- The same function on many lines, with comments. -/
def spreadSource : String :=
  "sign(x # the number\n  int) int\n\x7b\n  if x\n    < 0 \x7b\n    return -1\n  \x7d\n\n" ++
    "  # not negative\n  return 1 \x7d\n"

theorem parse_ignores_layout_spreadSource :
    ∃ tokens tokens', tokenize {} compactSource = .ok tokens ∧
      tokenize {} spreadSource = .ok tokens' ∧ tokens.length < tokens'.length ∧
      ∃ program program', parse {} compactSource = .ok program ∧
        parse {} spreadSource = .ok program' ∧ program'.erase = program.erase := by
  have hread : ((tokenize {} compactSource).toOption.any fun tokens =>
      (tokenize {} spreadSource).toOption.any fun tokens' =>
        decide (significantLexemes tokens' = significantLexemes tokens ∧
          returnBreaks tokens' = returnBreaks tokens ∧ tokens.length < tokens'.length)) = true := by
    decide +kernel
  have hparsed : (parse {} compactSource).toOption.isSome = true := by decide +kernel
  cases htokens : tokenize {} compactSource with
  | error fault =>
    rw [htokens] at hread
    cases hread
  | ok tokens =>
  cases htokens' : tokenize {} spreadSource with
  | error fault =>
    rw [htokens, htokens'] at hread
    cases hread
  | ok tokens' =>
  rw [htokens, htokens'] at hread
  obtain ⟨hlexemes, hbreaks, hlonger⟩ := of_decide_eq_true hread
  refine ⟨tokens, tokens', rfl, rfl, hlonger, ?_⟩
  rcases parse_ignores_layout htokens htokens' hlexemes hbreaks with
    hprograms | ⟨_, _, _, _, herror, -⟩ | ⟨-, herror, -⟩
  · exact hprograms
  · rw [herror] at hparsed
    cases hparsed
  · rw [herror] at hparsed
    cases hparsed

end FLang
