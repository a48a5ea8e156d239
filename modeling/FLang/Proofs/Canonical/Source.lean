import Mathlib
import FLang.Proofs.Canonical.Words
import FLang.Proofs.Grammar
import FLang.Proofs.Lexing.Spelling

/-!
# Canonical words come from the source

Every canonical word of a derived tree is a token that the tree was derived from, or a symbol: what
holds of all tokens and of all symbols holds of all words (`Carries`). Printing brings in no word
that was not there.
-/

namespace FLang

open Grammar

/-- If `Q` holds of the tokens of a phrase, it holds of the words of its tree. -/
def Carries {α : Type} (Q : Lexeme → Prop) (words : α → List Lexeme) (phrase : Phrase α) : Prop :=
  ∀ ts a, phrase ts a → (∀ t ∈ ts, Q t.lexeme) → ∀ l ∈ words a, Q l

section
variable {Q : Lexeme → Prop} (hQ : ∀ l, l.isSymbol = true → Q l)
include hQ

/-! ## Expressions -/

/-- The parentheses are symbols, so only what stands between them has to be looked at. -/
theorem forall_parenthesized {words : List Lexeme} (h : ∀ l ∈ words, Q l) :
    ∀ l ∈ parenthesized words, Q l := by
  simp only [parenthesized, List.cons_append, List.forall_mem_cons, List.forall_mem_append]
  exact ⟨hQ _ rfl, h, hQ _ rfl, by simp⟩

/-- Commas between items are symbols. -/
theorem forall_commaWords {items : List (List Lexeme)}
    (h : ∀ words ∈ items, ∀ l ∈ words, Q l) : ∀ l ∈ commaWords items, Q l := by
  unfold commaWords
  induction items with
  | nil => simp
  | cons first rest ih =>
    cases rest with
    | nil => simpa [List.intercalate] using h
    | cons second rest =>
      rw [List.forall_mem_cons] at h
      rw [List.intercalate_cons_cons, List.append_assoc, List.forall_mem_append,
        List.forall_mem_append]
      exact ⟨h.1, by simpa using hQ _ rfl, ih h.2⟩

omit hQ in
/-- What each item after a comma carries over, their list does. -/
theorem afterCommas_carries {α : Type} {words : α → List Lexeme} {item : Phrase α}
    (h : Carries Q words item) {ts : List Lookahead} {xs : List α} (hxs : AfterCommas item ts xs)
    (hts : ∀ t ∈ ts, Q t.lexeme) : ∀ x ∈ xs, ∀ l ∈ words x, Q l := by
  induction hxs with
  | nil => simp
  | cons _ hx _ ih =>
    simp only [List.cons_append, List.forall_mem_cons, List.forall_mem_append] at hts ⊢
    exact ⟨h _ _ hx hts.2.1, ih hts.2.2⟩

omit hQ in
/-- The words of arguments, one list for each of them. -/
@[simp] theorem wordsOf_eq_map (es : List Expression) :
    Expression.wordsOf es = es.map Expression.words := by
  induction es with
  | nil => rw [Expression.wordsOf, List.map_nil]
  | cons e es ih => rw [Expression.wordsOf, List.map_cons, ih]

section
variable {nested : Phrase Expression} (h : Carries Q Expression.words nested)
include h

/-- The words of a call are its name, the words of its arguments, and symbols. -/
theorem callArguments_carries {ts : List Lookahead} {es : List Expression} {name : String}
    (hes : CallArguments nested ts es) (hname : Q (.identifier name))
    (hts : ∀ t ∈ ts, Q t.lexeme) : ∀ l ∈ callWords name (Expression.wordsOf es), Q l := by
  rw [callWords, List.forall_mem_cons]
  refine ⟨hname, forall_parenthesized hQ (forall_commaWords hQ ?_)⟩
  rw [wordsOf_eq_map, List.forall_mem_map]
  cases hes with
  | intro _ hargs _ =>
    simp only [List.cons_append, List.forall_mem_cons, List.forall_mem_append] at hts
    cases hargs with
    | none => simp
    | some he hes =>
      simp only [List.forall_mem_append] at hts
      rw [List.forall_mem_cons]
      exact ⟨h _ _ he hts.2.1.1, afterCommas_carries h hes hts.2.1.2⟩

/-- The words of a term come from its tokens; a nested expression brings its own. -/
theorem term_carries : Carries Q Expression.words (Term nested) := by
  intro ts e he hts
  cases he with
  | literal hl => simpa [Expression.words, hl] using hts
  | reference hl => simpa [Expression.words, hl] using hts
  | call hl hes =>
    rw [List.forall_mem_cons, hl] at hts
    rw [Expression.words]
    exact callArguments_carries hQ h hes hts.1 hts.2
  | parentheses _ he _ =>
    simp only [List.cons_append, List.forall_mem_cons, List.forall_mem_append] at hts
    exact h _ _ he hts.2.1

/-- A sign adds a symbol. -/
theorem unary_carries : Carries Q Expression.words (Unary nested) := by
  intro ts e he hts
  cases he with
  | plain ht => exact term_carries hQ h _ _ ht hts
  | signed _ ht =>
    rw [List.forall_mem_cons] at hts
    have hwords := term_carries hQ h _ _ ht hts.2
    rw [Expression.words, List.forall_mem_cons]
    refine ⟨hQ _ rfl, ?_⟩
    split
    · exact forall_parenthesized hQ hwords
    · exact hwords

/-- A cast adds a keyword and the name of a type, which was a token. -/
theorem casted_carries : Carries Q Expression.words (Casted nested) := by
  intro ts e he hts
  cases he with
  | plain hu => exact unary_carries hQ h _ _ hu hts
  | cast hu has htype =>
    rw [List.forall_mem_append, List.forall_mem_cons, has] at hts
    cases htype with
    | intro hl =>
      rw [Expression.words]
      refine forall_parenthesized hQ ?_
      rw [List.forall_mem_append]
      exact ⟨unary_carries hQ h _ _ hu hts.1, by simpa [hl] using hts.2⟩

/-- A chain adds the symbols of its operators, by induction on its length. -/
theorem leftAssociative_carries (ops : List BinaryOperator) :
    Carries Q Expression.words (LeftAssociative ops nested) := by
  intro ts e he hts
  induction he with
  | single he => exact h _ _ he hts
  | more _ hl _ hright ih =>
    rw [List.forall_mem_append, List.forall_mem_cons, hl] at hts
    rw [Expression.words]
    refine forall_parenthesized hQ ?_
    rw [List.forall_mem_append, List.forall_mem_cons]
    exact ⟨ih hts.1, hts.2.1, h _ _ hright hts.2.2⟩

theorem sum_carries : Carries Q Expression.words (Sum nested) :=
  leftAssociative_carries hQ (leftAssociative_carries hQ (casted_carries hQ h) _) _

/-- A relation adds its symbol. -/
theorem comparison_carries : Carries Q Expression.words (Comparison nested) := by
  intro ts e he hts
  cases he with
  | plain hs => exact sum_carries hQ h _ _ hs hts
  | compare hleft hl hright =>
    rw [List.forall_mem_append, List.forall_mem_cons, hl] at hts
    rw [Expression.words]
    refine forall_parenthesized hQ ?_
    rw [List.forall_mem_append, List.forall_mem_cons]
    exact ⟨sum_carries hQ h _ _ hleft hts.1, hts.2.1, sum_carries hQ h _ _ hright hts.2.2⟩

end

/-- **The words of an expression come from the tokens that derive it**, at every depth. -/
theorem expression_carries (n : Nat) : Carries Q Expression.words (ExpressionPhrase n) := by
  induction n with
  | zero =>
    intro ts e he
    cases he
  | succ n ih =>
    exact leftAssociative_carries hQ
      (leftAssociative_carries hQ (comparison_carries hQ ih) _) _

/-! ## Statements -/

section
variable {E : Phrase Expression} {B : Phrase Block} (hE : Carries Q Expression.words E)
  (hB : Carries Q (fun b : Block => b.lines.flatten) B)
include hE

/-- A declaration adds a symbol to the name and the type that it was read from. -/
theorem declaration_carries : Carries Q Declaration.words (DeclarationPhrase E) := by
  intro ts d hd hts
  cases hd with
  | intro htype hname hl he =>
    rw [List.forall_mem_append, List.forall_mem_append, List.forall_mem_cons] at hts
    cases htype with
    | intro htype =>
      cases hname with
      | intro hname =>
        simp only [Declaration.words, List.forall_mem_cons]
        exact ⟨by simpa [htype] using hts.1.1, by simpa [hname] using hts.1.2, hQ _ rfl,
          hE _ _ he hts.2.2⟩

/-- The head of a choice holds its guards and its subject. -/
theorem choiceHead_carries {ts : List Lookahead} {guards : List Declaration}
    {subject : Option Expression} (hhead : ChoiceHead E ts (guards, subject))
    (hts : ∀ t ∈ ts, Q t.lexeme) : ∀ l ∈ choiceWords guards subject, Q l := by
  cases hhead with
  | guards hd hds =>
    rw [List.forall_mem_append] at hts
    simp only [choiceWords, List.isEmpty_cons, Bool.false_eq_true, if_false]
    refine forall_commaWords hQ ?_
    rw [List.forall_mem_map, List.forall_mem_cons]
    exact ⟨declaration_carries hQ hE _ _ hd hts.1,
      afterCommas_carries (declaration_carries hQ hE) hds hts.2⟩
  | subject he => exact hE _ _ he hts
  | bare => simp [choiceWords]

omit hE in
/-- Braces around lines are symbols. -/
theorem forall_braced {header : List Lexeme} {lines : List (List Lexeme)}
    (hheader : ∀ l ∈ header, Q l) (hlines : ∀ l ∈ lines.flatten, Q l) :
    ∀ l ∈ (bracedLines header lines).flatten, Q l := by
  simp only [bracedLines, List.cons_append, List.flatten_cons, List.flatten_append,
    List.forall_mem_append, List.forall_mem_cons, List.flatten_nil]
  exact ⟨⟨hheader, hQ _ rfl, by simp⟩, hlines, hQ _ rfl, by simp⟩

omit hQ hE in
/-- Words that are put on the last line are added to those of the lines. -/
theorem forall_extendLastLine {words : List Lexeme} (hwords : ∀ l ∈ words, Q l) :
    ∀ {lines : List (List Lexeme)}, (∀ l ∈ lines.flatten, Q l) →
      ∀ l ∈ (extendLastLine words lines).flatten, Q l
  | [], h => h
  | [last], h => by
    simp only [extendLastLine, List.flatten_cons, List.flatten_nil, List.append_nil,
      List.forall_mem_append] at h ⊢
    exact ⟨h, hwords⟩
  | first :: second :: rest, h => by
    rw [List.flatten_cons, List.forall_mem_append] at h
    rw [extendLastLine, List.flatten_cons, List.forall_mem_append]
    · exact ⟨h.1, forall_extendLastLine hwords h.2⟩
    · simp

include hB

/-- What a case does is written behind its label. -/
theorem output_carries {ts : List Lookahead} {output : CaseOutput} {label : List Lexeme}
    (hout : OutputPhrase E B ts output) (hlabel : ∀ l ∈ label, Q l)
    (hts : ∀ t ∈ ts, Q t.lexeme) : ∀ l ∈ (output.lines label).flatten, Q l := by
  cases hout with
  | expression he =>
    rw [CaseOutput.lines, List.flatten_singleton, List.forall_mem_append]
    exact ⟨hlabel, hE _ _ he hts⟩
  | block hb =>
    rw [CaseOutput.lines]
    exact forall_braced hQ hlabel (hB _ _ hb hts)

/-- A case holds its test, an arrow and what it does. -/
theorem case_carries : Carries Q (fun c : Case => c.lines.flatten) (CasePhrase E B) := by
  intro ts c hc hts
  show ∀ l ∈ c.lines.flatten, Q l
  cases hc with
  | fallback hl harrow hout =>
    rw [List.forall_mem_cons, List.forall_mem_cons, hl] at hts
    rw [Case.lines]
    refine output_carries hQ hE hB hout ?_ hts.2.2
    simpa using ⟨hts.1, hQ _ rfl⟩
  | test htest harrow hout =>
    obtain ⟨hlabel, hrest⟩ := List.forall_mem_append.1 hts
    rw [Case.lines]
    refine output_carries hQ hE hB hout ?_ (List.forall_mem_cons.1 hrest).2
    rw [List.forall_mem_append]
    refine ⟨?_, by simpa using hQ _ rfl⟩
    cases htest with
    | compared hl he =>
      simp only [testWords, List.forall_mem_cons]
      exact ⟨hQ _ rfl, hE _ _ he (List.forall_mem_cons.1 hlabel).2⟩
    | plain he => exact hE _ _ he hlabel

omit hE hB in
/-- The lines of cases hold what each of them does, and commas. -/
theorem cases_carries : ∀ {cs : List Case}, (∀ c ∈ cs, ∀ l ∈ c.lines.flatten, Q l) →
    ∀ l ∈ (Case.linesOf cs).flatten, Q l
  | [], _ => by simp [Case.linesOf]
  | [last], h => by
    rw [Case.linesOf]
    exact h last (List.mem_singleton_self _)
  | first :: second :: rest, h => by
    rw [List.forall_mem_cons] at h
    rw [Case.linesOf, List.flatten_append, List.forall_mem_append]
    exact ⟨forall_extendLastLine (by simpa using hQ _ rfl) h.1, cases_carries h.2⟩

/-- The lines of a statement come from its tokens, one case for each statement. -/
theorem statement_carries {next : Lookahead} :
    Carries Q (fun s : Statement => s.lines.flatten) (StatementPhrase E B next) := by
  intro ts s hs hts
  show ∀ l ∈ s.lines.flatten, Q l
  cases hs with
  | declaration hd =>
    rw [Statement.lines, List.flatten_singleton]
    exact declaration_carries hQ hE _ _ hd hts
  | assignment hl _ he =>
    rw [List.forall_mem_cons, List.forall_mem_cons, hl] at hts
    rw [Statement.lines, List.flatten_singleton, List.forall_mem_cons, List.forall_mem_cons]
    exact ⟨hts.1, hQ _ rfl, hE _ _ he hts.2.2⟩
  | call hl hes =>
    rw [List.forall_mem_cons, hl] at hts
    rw [Statement.lines, List.flatten_singleton]
    exact callArguments_carries hQ hE hes hts.1 hts.2
  | conditional hl he hb =>
    rw [List.cons_append, List.forall_mem_cons, List.forall_mem_append, hl] at hts
    rw [Statement.lines]
    refine forall_braced hQ ?_ (hB _ _ hb hts.2.2)
    rw [List.forall_mem_cons]
    exact ⟨hts.1, hE _ _ he hts.2.1⟩
  | alternative hl he hb helse hb' =>
    simp only [List.cons_append, List.forall_mem_cons, List.forall_mem_append, hl, helse] at hts
    rw [Statement.lines, List.cons_append, List.flatten_cons, List.flatten_append]
    simp only [List.cons_append, List.forall_mem_cons, List.forall_mem_append]
    -- the brace that closes the first block shares a line with the second keyword
    refine ⟨hts.1, ⟨hE _ _ he hts.2.1.1, hQ _ rfl, by simp⟩, hB _ _ hb hts.2.1.2, ?_⟩
    refine forall_braced hQ ?_ (hB _ _ hb' hts.2.2.2)
    simpa using ⟨hQ _ rfl, hts.2.2.1⟩
  | loop hl he hb =>
    rw [List.cons_append, List.forall_mem_cons, List.forall_mem_append, hl] at hts
    rw [Statement.lines]
    refine forall_braced hQ ?_ (hB _ _ hb hts.2.2)
    rw [List.forall_mem_cons]
    exact ⟨hts.1, hE _ _ he hts.2.1⟩
  | choice hl hhead hcs =>
    rw [List.cons_append, List.forall_mem_cons, List.forall_mem_append, hl] at hts
    rw [Statement.lines]
    refine forall_braced hQ ?_ ?_
    · rw [List.forall_mem_cons]
      exact ⟨hts.1, choiceHead_carries hQ hE hhead hts.2.1⟩
    · cases hcs with
      | intro _ hc hmore _ =>
        simp only [List.cons_append, List.forall_mem_cons, List.forall_mem_append] at hts
        refine cases_carries hQ ?_
        rw [List.forall_mem_cons]
        exact ⟨case_carries hQ hE hB _ _ hc hts.2.2.2.1.1,
          afterCommas_carries (case_carries hQ hE hB) hmore hts.2.2.2.1.2⟩
  | value hl _ he =>
    rw [List.forall_mem_cons, hl] at hts
    rw [Statement.lines, List.flatten_singleton, List.forall_mem_cons]
    exact ⟨hts.1, hE _ _ he hts.2⟩
  | noValue hl _ =>
    rw [List.forall_mem_cons, hl] at hts
    simpa [Statement.lines] using hts.1

/-- The lines of statements are the lines of each of them. -/
theorem statements_carries {last : Lookahead} {ts : List Lookahead} {ss : List Statement}
    (hss : StatementList E B last ts ss) (hts : ∀ t ∈ ts, Q t.lexeme) :
    ∀ l ∈ (Statement.linesOf ss).flatten, Q l := by
  induction hss with
  | nil => simp [Statement.linesOf]
  | cons hs _ ih =>
    rw [List.forall_mem_append] at hts
    rw [Statement.linesOf, List.flatten_append, List.forall_mem_append]
    exact ⟨statement_carries hQ hE hB _ _ hs hts.1, ih hts.2⟩

end

/-- **The lines of a block come from the tokens that derive it**, at every depth. -/
theorem block_carries (n : Nat) :
    Carries Q (fun b : Block => b.lines.flatten) (BlockPhrase n) := by
  induction n with
  | zero =>
    intro ts b hb
    cases hb
  | succ n ih =>
    intro ts b hb hts
    show ∀ l ∈ b.lines.flatten, Q l
    cases hb with
    | intro _ hss _ =>
      simp only [List.cons_append, List.forall_mem_cons, List.forall_mem_append] at hts
      rw [Block.lines]
      exact statements_carries hQ (expression_carries hQ n) ih hss hts.2.1

/-! ## Functions -/

omit hQ in
/-- Each parameter of a group has a name of its own and the type of the group, both read. -/
theorem parameterGroup_carries {ts : List Lookahead} {ps : List Parameter}
    (hps : ParameterGroup ts ps) (hts : ∀ t ∈ ts, Q t.lexeme) :
    ∀ p ∈ ps, ∀ l ∈ p.words, Q l := by
  cases hps with
  | intro hname hnames htype =>
    rw [List.forall_mem_append, List.forall_mem_append] at hts
    have hcarries : Carries Q (fun name : Position × String => [.identifier name.2]) Name := by
      intro ts name hname hts
      cases hname with
      | intro hl => simpa [hl] using hts
    cases htype with
    | intro hl =>
      have hall := List.forall_mem_cons.2
        ⟨hcarries _ _ hname hts.1.1, afterCommas_carries hcarries hnames hts.1.2⟩
      rw [List.forall_mem_map]
      intro name hmem
      simp only [Parameter.words, List.forall_mem_cons]
      exact ⟨hall name hmem _ (List.mem_singleton_self _), by simpa [hl] using hts.2, by simp⟩

omit hQ in
/-- The parameters of a list are those of its groups. -/
theorem parameters_carries {ts : List Lookahead} {ps : List Parameter}
    (hps : ParameterList ts ps) (hts : ∀ t ∈ ts, Q t.lexeme) :
    ∀ p ∈ ps, ∀ l ∈ p.words, Q l := by
  have hcarries : Carries Q (fun ps => ps.flatMap Parameter.words) ParameterGroup := by
    intro ts ps hps hts l hl
    obtain ⟨p, hp, hl⟩ := List.mem_flatMap.1 hl
    exact parameterGroup_carries hps hts p hp l hl
  cases hps with
  | none => simp
  | some hgroup hgroups =>
    rw [List.forall_mem_append] at hts ⊢
    refine ⟨parameterGroup_carries hgroup hts.1, fun p hp l hl => ?_⟩
    obtain ⟨group, hmem, hp⟩ := List.mem_flatten.1 hp
    exact afterCommas_carries hcarries hgroups hts.2 group hmem l
      (List.mem_flatMap.2 ⟨p, hp, hl⟩)

/-- The lines of a function come from its tokens. -/
theorem function_carries (n : Nat) :
    Carries Q (fun f : Function => f.lines.flatten) (FunctionPhrase (BlockPhrase n)) := by
  intro ts f hf hts
  cases hf with
  | intro hname _ hps _ htype hbody =>
    simp only [List.cons_append, List.append_assoc, List.forall_mem_cons,
      List.forall_mem_append, hname] at hts
    refine forall_braced hQ ?_ (block_carries hQ n _ _ hbody hts.2.2.2.2.2)
    rw [List.forall_mem_append, callWords, List.forall_mem_cons]
    refine ⟨⟨hts.1, forall_parenthesized hQ (forall_commaWords hQ ?_)⟩, ?_⟩
    · rw [List.forall_mem_map]
      exact parameters_carries hps hts.2.2.1
    · cases htype with
      | none => simp [ValueType.words]
      | some htype =>
        cases htype with
        | intro hl => simpa [ValueType.words, hl] using hts.2.2.2.2.1

/-- **The words of some functions stand in any text of theirs**, the symbols apart. -/
theorem functions_carry {n : Nat} {ts : List Lookahead} {fs : List Function}
    (hfs : FunctionList (BlockPhrase n) ts fs) (hts : ∀ t ∈ ts, Q t.lexeme) :
    ∀ f ∈ fs, ∀ l ∈ f.lines.flatten, Q l := by
  induction hfs with
  | nil => simp
  | cons hf _ ih =>
    rw [List.forall_mem_append] at hts
    exact List.forall_mem_cons.2 ⟨function_carries hQ n _ _ hf hts.1, ih hts.2⟩

end

end FLang
