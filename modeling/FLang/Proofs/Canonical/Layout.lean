import FLang.Proofs.Canonical.Derivation
import FLang.Proofs.Completeness.Programs

/-!
# The lines of a program derive it again

Tokens that are laid out in the canonical lines of a program derive a program that differs in
positions only. For statements the line breaks matter, since a `return` takes no value from the next
line.

* `layout` — the lexemes of some lines, each with whether it begins a line, which is all that the
  grammar sees of a token besides its position;
* `statement_of_lines`, `block_of_lines`, `function_of_lines` — one result for each kind of phrase.
  A tree is taken with a derivation of its own, from any other text: it says, for instance, that a
  choice has a case;
* `functions_of_lines` — the result for the functions of a program.
-/

namespace FLang

open Grammar

/-! ## Tokens in lines -/

/-- What the grammar sees of a token. -/
def Lookahead.mark (t : Lookahead) : Lexeme × Bool :=
  (t.lexeme, t.newlineBefore)

/-- The lexemes of a line: the first begins it. -/
def markLine : List Lexeme → List (Lexeme × Bool)
  | [] => []
  | first :: rest => (first, true) :: rest.map fun l => (l, false)

/-- The lexemes of some lines. -/
def layout (lines : List (List Lexeme)) : List (Lexeme × Bool) :=
  lines.flatMap markLine

@[simp] theorem map_fst_markLine (words : List Lexeme) : (markLine words).map Prod.fst = words := by
  cases words with
  | nil => rfl
  | cons first rest => simp [markLine, Function.comp_def]

theorem markLine_append (first : Lexeme) (rest words : List Lexeme) :
    markLine (first :: rest ++ words) =
      markLine (first :: rest) ++ words.map fun l => (l, false) := by
  simp [markLine]

@[simp] theorem layout_cons (line : List Lexeme) (lines : List (List Lexeme)) :
    layout (line :: lines) = markLine line ++ layout lines :=
  List.flatMap_cons

@[simp] theorem layout_append (lines lines' : List (List Lexeme)) :
    layout (lines ++ lines') = layout lines ++ layout lines' :=
  List.flatMap_append

@[simp] theorem layout_singleton (line : List Lexeme) : layout [line] = markLine line := by
  simp [layout]

/-- The first lexeme of some lines begins a line. -/
theorem layout_starts {lines : List (List Lexeme)} {m : Lexeme × Bool}
    {ms : List (Lexeme × Bool)} (h : layout lines = m :: ms) : m.2 = true := by
  induction lines with
  | nil => cases h
  | cons line lines ih =>
    rw [layout_cons] at h
    cases line with
    | nil => exact ih h
    | cons first rest => rw [← (List.cons.inj h).1]

section
variable {us : List Lookahead}

theorem map_lexeme_of_marks {ms : List (Lexeme × Bool)} (h : us.map Lookahead.mark = ms) :
    us.map Lookahead.lexeme = ms.map Prod.fst := by
  rw [← h, List.map_map]
  rfl

theorem lexemes_of_line {words : List Lexeme} (h : us.map Lookahead.mark = layout [words]) :
    us.map Lookahead.lexeme = words := by
  rw [map_lexeme_of_marks h, layout_singleton, map_fst_markLine]

/-- After its first token a line goes on. -/
theorem inline_of_marks {words : List Lexeme}
    (h : us.map Lookahead.mark = words.map fun l => (l, false)) :
    us.map Lookahead.lexeme = words ∧ ∀ t ∈ us, t.newlineBefore = false := by
  refine ⟨?_, fun t ht => ?_⟩
  · rw [map_lexeme_of_marks h, List.map_map]
    exact List.map_id _
  · have hmem : t.mark ∈ words.map fun l => (l, false) := h ▸ List.mem_map_of_mem ht
    obtain ⟨l, -, heq⟩ := List.mem_map.1 hmem
    exact (congrArg Prod.snd heq).symm

/-- What follows some lines begins a line if the token after them does. -/
theorem newlineBefore_headD {lines : List (List Lexeme)} {last : Lookahead}
    (h : us.map Lookahead.mark = layout lines) (hlast : last.newlineBefore = true) :
    (us.headD last).newlineBefore = true := by
  cases us with
  | nil => exact hlast
  | cons t us => exact layout_starts (m := t.mark) h.symm

/-- Tokens of lines in braces: the header, the brace, the lines and the closing brace. -/
theorem braced_split {first : Lexeme} {header : List Lexeme} {lines : List (List Lexeme)}
    (h : us.map Lookahead.mark = layout (bracedLines (first :: header) lines)) :
    ∃ t us₁ left us₂ right, us = t :: us₁ ++ (left :: us₂ ++ [right]) ∧
      (t.lexeme = first ∧ t.newlineBefore = true) ∧ us₁.map Lookahead.lexeme = header ∧
      left.lexeme = .punctuation .leftBrace ∧ us₂.map Lookahead.mark = layout lines ∧
      right.lexeme = .punctuation .rightBrace ∧ right.newlineBefore = true := by
  rw [bracedLines, layout_append, layout_cons, markLine_append, List.append_assoc,
    List.append_assoc, List.map_singleton, List.singleton_append] at h
  obtain ⟨us₀, us₃, rfl, h₀, h₃⟩ := List.map_eq_append_iff.1 h
  obtain ⟨t, us₁, rfl, ht, h₁⟩ := List.map_eq_cons_iff.1 h₀
  obtain ⟨left, us₄, rfl, hleft, h₄⟩ := List.map_eq_cons_iff.1 h₃
  obtain ⟨us₂, us₅, rfl, h₂, h₅⟩ := List.map_eq_append_iff.1 h₄
  obtain ⟨right, us₆, rfl, hright, h₆⟩ := List.map_eq_cons_iff.1 h₅
  obtain rfl := List.map_eq_nil_iff.1 h₆
  exact ⟨t, us₁, left, us₂, right, rfl, Prod.mk.inj ht, (inline_of_marks h₁).1,
    (Prod.mk.inj hleft).1, h₂, Prod.mk.inj hright⟩

end

/-! ## Lists with commas -/

/-- Items whose words derive them again, with a comma before each. What is kept of an item is given
by `f` and `g`. -/
theorem afterCommas_of_words {α β γ : Type} {item : Phrase β} {words : α → List Lexeme}
    {f : β → γ} {g : α → γ} {items : List α} {us : List Lookahead}
    (hitem : ∀ a ∈ items, ∀ us : List Lookahead, us.map Lookahead.lexeme = words a →
      ∃ b, f b = g a ∧ item us b)
    (hus : us.map Lookahead.lexeme =
      (items.map words).flatMap fun words => .punctuation .comma :: words) :
    ∃ items', items'.map f = items.map g ∧ AfterCommas item us items' := by
  induction items generalizing us with
  | nil =>
    obtain rfl := List.map_eq_nil_iff.1 hus
    exact ⟨[], rfl, .nil⟩
  | cons a items ih =>
    rw [List.forall_mem_cons] at hitem
    rw [List.map_cons, List.flatMap_cons] at hus
    obtain ⟨us₁, us₂, rfl, h₁, h₂⟩ := List.map_eq_append_iff.1 hus
    obtain ⟨comma, us₃, rfl, hcomma, h₃⟩ := List.map_eq_cons_iff.1 h₁
    obtain ⟨b, hb, hphrase⟩ := hitem.1 us₃ h₃
    obtain ⟨items', hitems, hrest⟩ := ih hitem.2 h₂
    exact ⟨b :: items', by rw [List.map_cons, List.map_cons, hb, hitems],
      .cons hcomma hphrase hrest⟩

theorem le_deepest {depth : Nat} {depths : List Nat} (h : depth ∈ depths) :
    depth ≤ deepest depths := by
  induction depths with
  | nil => cases h
  | cons first rest ih =>
    rcases List.mem_cons.1 h with rfl | h
    · exact Nat.le_max_left ..
    · exact Nat.le_trans (ih h) (Nat.le_max_right ..)

/-! ## Statements -/

section
variable {n : Nat} {us : List Lookahead}

theorem declaration_of_words {d : Declaration} (hn : d.nesting ≤ n)
    (hus : us.map Lookahead.lexeme = d.words) :
    ∃ d', d'.erase = d.erase ∧ DeclarationPhrase (ExpressionPhrase n) us d' := by
  obtain ⟨type, us₁, rfl, htype, h₁⟩ := List.map_eq_cons_iff.1 hus
  obtain ⟨name, us₂, rfl, hname, h₂⟩ := List.map_eq_cons_iff.1 h₁
  obtain ⟨declare, us₃, rfl, hdeclare, h₃⟩ := List.map_eq_cons_iff.1 h₂
  obtain ⟨e, herase, he⟩ := expression_of_words hn h₃
  exact ⟨⟨name.position, d.name, d.type, e⟩, by rw [Declaration.erase, Declaration.erase, herase],
    .intro (.intro htype) (.intro hname) hdeclare he⟩

/-- What stands before the cases of a choice. -/
theorem choiceHead_of_words {E : Phrase Expression} {ts : List Lookahead}
    {guards : List Declaration} {subject : Option Expression}
    (hhead : ChoiceHead E ts (guards, subject))
    (hguards : deepest (guards.map Declaration.nesting) ≤ n)
    (hsubject : Expression.nestingOf subject.toList ≤ n)
    (hus : us.map Lookahead.lexeme = choiceWords guards subject) :
    ∃ guards' subject', guards'.map Declaration.erase = guards.map Declaration.erase ∧
      subject'.map Expression.erase = subject.map Expression.erase ∧
      ChoiceHead (ExpressionPhrase n) us (guards', subject') := by
  cases hhead with
  | @guards _ _ d ds _ _ =>
    have hdeclarations : ∀ d' ∈ d :: ds, ∀ us : List Lookahead,
        us.map Lookahead.lexeme = d'.words →
        ∃ d'', d''.erase = d'.erase ∧ DeclarationPhrase (ExpressionPhrase n) us d'' :=
      fun d' hd' _ h => declaration_of_words
        (Nat.le_trans (le_deepest (List.mem_map_of_mem hd')) hguards) h
    rw [List.forall_mem_cons] at hdeclarations
    rw [choiceWords, if_neg (by simp), List.map_cons, commaWords_cons] at hus
    obtain ⟨us₁, us₂, rfl, h₁, h₂⟩ := List.map_eq_append_iff.1 hus
    obtain ⟨d', hd, hphrase⟩ := hdeclarations.1 us₁ h₁
    obtain ⟨ds', hds, hphrases⟩ := afterCommas_of_words hdeclarations.2 h₂
    exact ⟨d' :: ds', none, by rw [List.map_cons, List.map_cons, hd, hds], rfl,
      .guards hphrase hphrases⟩
  | @subject _ e _ =>
    obtain ⟨e', herase, he⟩ := expression_of_words (e := e)
      (Nat.le_trans (Nat.le_max_left ..) hsubject) hus
    exact ⟨[], some e', rfl, congrArg some herase, .subject he⟩
  | bare =>
    obtain rfl := List.map_eq_nil_iff.1 hus
    exact ⟨[], none, rfl, rfl, .bare⟩

/-- Tokens in braces that are laid out as the lines of a block derive it. -/
def RederivesBlock (b : Block) : Prop :=
  ∀ n, b.nesting ≤ n → ∀ left us right, left.lexeme = .punctuation .leftBrace →
    us.map Lookahead.mark = layout b.lines → right.lexeme = .punctuation .rightBrace →
    right.newlineBefore = true →
    ∃ b', b'.erase = b.erase ∧ BlockPhrase n (left :: us ++ [right]) b'

variable {E : Phrase Expression} {B : Phrase Block}

/-- What a case does, after its label. -/
theorem output_of_lines (hB : ∀ ts b, B ts b → RederivesBlock b) {ts : List Lookahead}
    {output : CaseOutput} (houtput : OutputPhrase E B ts output) (hn : output.nesting ≤ n)
    {first : Lexeme} {label : List Lexeme}
    (hus : us.map Lookahead.mark = layout (output.lines (first :: label))) :
    ∃ us₁ us₂ output', us = us₁ ++ us₂ ∧ us₁.map Lookahead.lexeme = first :: label ∧
      output'.erase = output.erase ∧
      OutputPhrase (ExpressionPhrase n) (BlockPhrase n) us₂ output' := by
  cases houtput with
  | expression _ =>
    rw [CaseOutput.lines] at hus
    rw [CaseOutput.nesting] at hn
    obtain ⟨us₁, us₂, rfl, h₁, h₂⟩ := List.map_eq_append_iff.1 (lexemes_of_line hus)
    obtain ⟨e', herase, he⟩ := expression_of_words hn h₂
    exact ⟨us₁, us₂, _, rfl, h₁, by rw [CaseOutput.erase, CaseOutput.erase, herase],
      .expression he⟩
  | block hb =>
    rw [CaseOutput.lines] at hus
    rw [CaseOutput.nesting] at hn
    obtain ⟨t, us₁, left, us₂, right, rfl, ⟨ht, -⟩, h₁, hleft, h₂, hright, hline⟩ :=
      braced_split hus
    obtain ⟨b', herase, hb'⟩ := hB _ _ hb n hn left us₂ right hleft h₂ hright hline
    exact ⟨t :: us₁, _, _, rfl, by rw [List.map_cons, ht, h₁],
      by rw [CaseOutput.erase, CaseOutput.erase, herase], .block hb'⟩

/-- The last line of a case is not empty, so that a comma stays on it. -/
theorem layout_extendLastLine_output {output : CaseOutput} {first : Lexeme}
    {label words : List Lexeme} :
    layout (extendLastLine words (output.lines (first :: label))) =
      layout (output.lines (first :: label)) ++ words.map fun l => (l, false) := by
  have hextend : ∀ (init : List (List Lexeme)) (last : List Lexeme),
      extendLastLine words (init ++ [last]) = init ++ [last ++ words] := by
    intro init last
    induction init with
    | nil => rfl
    | cons line init ih => cases init <;> simp_all [extendLastLine]
  obtain ⟨init, l, ls, hlines⟩ :
      ∃ init l ls, output.lines (first :: label) = init ++ [l :: ls] := by
    cases output with
    | expression e => exact ⟨[], first, label ++ e.words, by rw [CaseOutput.lines]; rfl⟩
    | block b => exact ⟨_, _, _, by rw [CaseOutput.lines]; rfl⟩
  rw [hlines, hextend, layout_append, layout_append, layout_singleton, layout_singleton,
    markLine_append, List.append_assoc]

/-- A case starts with a label that is not empty. -/
theorem Case.lines_eq (c : Case) :
    ∃ (output : CaseOutput) (first : Lexeme) (label : List Lexeme),
      c.lines = output.lines (first :: label) := by
  cases c with
  | fallback _ output => exact ⟨output, _, _, by rw [Case.lines]⟩
  | test _ relation e output =>
    obtain ⟨first, label, hlabel⟩ := List.exists_cons_of_ne_nil
      (List.append_ne_nil_of_right_ne_nil (testWords relation e)
        (List.cons_ne_nil (.punctuation .arrow) []))
    exact ⟨output, first, label, by rw [Case.lines, hlabel]⟩

theorem test_of_words {ts : List Lookahead} {relation : Option Relation} {e : Expression}
    {us : List Lookahead} (htest : CaseTest E ts (relation, e)) (hn : e.nesting + 1 ≤ n)
    (hus : us.map Lookahead.lexeme = testWords relation e) :
    ∃ e', e'.erase = e.erase ∧ CaseTest (ExpressionPhrase n) us (relation, e') := by
  cases htest with
  | compared _ _ =>
    obtain ⟨t, us₁, rfl, ht, h₁⟩ := List.map_eq_cons_iff.1 hus
    obtain ⟨e', herase, he⟩ := expression_of_words hn h₁
    exact ⟨e', herase, .compared ht he⟩
  | plain _ =>
    obtain ⟨e', herase, he⟩ := expression_of_words hn hus
    exact ⟨e', herase, .plain he⟩

/-- Tokens that are laid out as the lines of a case derive it. -/
theorem case_of_lines (hB : ∀ ts b, B ts b → RederivesBlock b) {ts : List Lookahead} {c : Case}
    (hc : CasePhrase E B ts c) (hn : c.nesting ≤ n)
    (hus : us.map Lookahead.mark = layout c.lines) :
    ∃ c', c'.erase = c.erase ∧ CasePhrase (ExpressionPhrase n) (BlockPhrase n) us c' := by
  cases hc with
  | fallback _ _ houtput =>
    rw [Case.lines] at hus
    rw [Case.nesting] at hn
    obtain ⟨us₁, us₂, output', rfl, h₁, herase, houtput'⟩ := output_of_lines hB houtput hn hus
    obtain ⟨default, us₃, rfl, hdefault, h₃⟩ := List.map_eq_cons_iff.1 h₁
    obtain ⟨arrow, us₄, rfl, harrow, h₄⟩ := List.map_eq_cons_iff.1 h₃
    obtain rfl := List.map_eq_nil_iff.1 h₄
    exact ⟨.fallback default.position output', by rw [Case.erase, Case.erase, herase],
      .fallback hdefault harrow houtput'⟩
  | @test _ _ _ _ relation e output htest _ houtput =>
    rw [Case.lines] at hus
    rw [Case.nesting, Nat.max_le] at hn
    obtain ⟨first, label, hlabel⟩ := List.exists_cons_of_ne_nil (l := testWords relation e ++ _)
      (List.append_ne_nil_of_right_ne_nil _ (List.cons_ne_nil (.punctuation .arrow) []))
    rw [hlabel] at hus
    obtain ⟨us₁, us₂, output', rfl, h₁, herase, houtput'⟩ := output_of_lines hB houtput hn.2 hus
    rw [← hlabel] at h₁
    obtain ⟨us₃, us₄, rfl, h₃, h₄⟩ := List.map_eq_append_iff.1 h₁
    obtain ⟨arrow, us₅, rfl, harrow, h₅⟩ := List.map_eq_cons_iff.1 h₄
    obtain rfl := List.map_eq_nil_iff.1 h₅
    obtain ⟨e', he, htest'⟩ := test_of_words htest hn.1 h₃
    obtain ⟨t, us₆, rfl, -⟩ := caseTest_first (expression_first n) _ _ htest'
    refine ⟨.test t.position relation e' output', ?_, ?_⟩
    · rw [Case.erase, Case.erase, he, herase]
    · rw [List.append_assoc]
      exact .test htest' harrow houtput'

/-- Tokens that are laid out as the lines of some cases derive them. -/
theorem cases_of_lines (hB : ∀ ts b, B ts b → RederivesBlock b) {cs : List Case} {c : Case}
    (hcs : ∀ c' ∈ c :: cs, ∃ ts, CasePhrase E B ts c') (hn : Case.nestingOf (c :: cs) ≤ n)
    (hus : us.map Lookahead.mark = layout (Case.linesOf (c :: cs))) :
    ∃ us₁ us₂ c' cs', us = us₁ ++ us₂ ∧ c'.erase = c.erase ∧
      Case.eraseAll cs' = Case.eraseAll cs ∧
      CasePhrase (ExpressionPhrase n) (BlockPhrase n) us₁ c' ∧
      AfterCommas (CasePhrase (ExpressionPhrase n) (BlockPhrase n)) us₂ cs' := by
  induction cs generalizing c us with
  | nil =>
    rw [Case.linesOf] at hus
    rw [Case.nestingOf, Nat.max_le] at hn
    obtain ⟨⟨ts, hc⟩, -⟩ := List.forall_mem_cons.1 hcs
    obtain ⟨c', herase, hc'⟩ := case_of_lines hB hc hn.1 hus
    exact ⟨us, [], c', [], (List.append_nil _).symm, herase, rfl, hc', .nil⟩
  | cons second rest ih =>
    rw [Case.linesOf, layout_append] at hus
    rw [Case.nestingOf, Nat.max_le] at hn
    obtain ⟨⟨ts, hc⟩, hrest⟩ := List.forall_mem_cons.1 hcs
    obtain ⟨us₁, us₂, rfl, h₁, h₂⟩ := List.map_eq_append_iff.1 hus
    -- the comma after the first case is on the last of its lines
    have hlines : layout (extendLastLine [.punctuation .comma] c.lines) =
        layout c.lines ++ [(.punctuation .comma, false)] := by
      obtain ⟨output, first, label, heq⟩ := c.lines_eq
      rw [heq]
      exact layout_extendLastLine_output
    rw [hlines] at h₁
    obtain ⟨us₃, us₄, rfl, h₃, h₄⟩ := List.map_eq_append_iff.1 h₁
    obtain ⟨comma, us₅, rfl, hcomma, h₅⟩ := List.map_eq_cons_iff.1 h₄
    obtain rfl := List.map_eq_nil_iff.1 h₅
    obtain ⟨c', herase, hc'⟩ := case_of_lines hB hc hn.1 h₃
    obtain ⟨us₆, us₇, second', rest', rfl, hsecond, hall, hphrase, hphrases⟩ := ih hrest hn.2 h₂
    refine ⟨us₃, comma :: us₆ ++ us₇, c', second' :: rest', by simp, herase, ?_, hc',
      .cons (Prod.mk.inj hcomma).1 hphrase hphrases⟩
    rw [Case.eraseAll, Case.eraseAll, hsecond, hall]

/-- A keyword with an expression, and a block after it. -/
theorem tested_of_lines {first : Lexeme} {e : Expression} {b : Block} (hb : RederivesBlock b)
    (hn : max (e.nesting + 1) b.nesting ≤ n)
    (hus : us.map Lookahead.mark = layout (bracedLines (first :: e.words) b.lines)) :
    ∃ t us₁ us₂ e' b', us = t :: us₁ ++ us₂ ∧ t.lexeme = first ∧
      e'.erase = e.erase ∧ ExpressionPhrase n us₁ e' ∧
      b'.erase = b.erase ∧ BlockPhrase n us₂ b' := by
  rw [Nat.max_le] at hn
  obtain ⟨t, us₁, left, us₂, right, rfl, ⟨ht, -⟩, h₁, hleft, h₂, hright, hline⟩ :=
    braced_split hus
  obtain ⟨e', he, hexpression⟩ := expression_of_words hn.1 h₁
  obtain ⟨b', hb', hblock⟩ := hb n hn.2 left us₂ right hleft h₂ hright hline
  exact ⟨t, us₁, _, e', b', rfl, ht, he, hexpression, hb', hblock⟩

/-- A conditional with two blocks. -/
theorem alternative_of_lines {position : Position} {e : Expression} {b b' : Block}
    (hb : RederivesBlock b) (hb' : RederivesBlock b')
    (hn : (Statement.conditional position e b (some b')).nesting ≤ n)
    (hus : us.map Lookahead.mark =
      layout (Statement.conditional position e b (some b')).lines) (next : Lookahead) :
    ∃ s', s'.erase = (Statement.conditional position e b (some b')).erase ∧
      StatementPhrase (ExpressionPhrase n) (BlockPhrase n) next us s' := by
  rw [Statement.lines, layout_append, layout_cons, List.append_assoc] at hus
  rw [Statement.nesting, Nat.max_le, Nat.max_le] at hn
  obtain ⟨us₁, us₂, rfl, h₁, h₂⟩ := List.map_eq_append_iff.1 hus
  obtain ⟨us₃, us₄, rfl, h₃, h₄⟩ := List.map_eq_append_iff.1 h₂
  -- the brace that closes the first block opens the header of the second
  obtain ⟨close, us₅, left', us₆, right', rfl, ⟨hclose, hline⟩, h₅, hleft', h₆, hright', hline'⟩ :=
    braced_split h₄
  obtain ⟨otherwise, us₇, rfl, hotherwise, h₇⟩ := List.map_eq_cons_iff.1 h₅
  obtain rfl := List.map_eq_nil_iff.1 h₇
  rw [← layout_singleton] at h₁
  obtain ⟨us₈, us₉, rfl, h₈, h₉⟩ := List.map_eq_append_iff.1 (lexemes_of_line h₁)
  obtain ⟨t, us₁₀, rfl, ht, h₁₀⟩ := List.map_eq_cons_iff.1 h₈
  obtain ⟨left, us₁₁, rfl, hleft, h₁₁⟩ := List.map_eq_cons_iff.1 h₉
  obtain rfl := List.map_eq_nil_iff.1 h₁₁
  obtain ⟨e', he, hcondition⟩ := expression_of_words hn.1 h₁₀
  obtain ⟨c, hc, hblock⟩ := hb n hn.2.1 left us₃ close hleft h₃ hclose hline
  obtain ⟨c', hc', hblock'⟩ := hb' n hn.2.2 left' us₆ right' hleft' h₆ hright' hline'
  refine ⟨.conditional t.position e' c (some c'), ?_, ?_⟩
  · rw [Statement.erase, Statement.erase, he, hc, hc']
  · have : StatementPhrase _ _ next _ _ := .alternative ht hcondition hblock hotherwise hblock'
    simpa using this

/-- **The lines of a statement derive it again**, in front of a token on a line of its own. -/
theorem statement_of_lines (hB : ∀ ts b, B ts b → RederivesBlock b) {next : Lookahead}
    {ts : List Lookahead} {s : Statement} (hs : StatementPhrase E B next ts s)
    (hn : s.nesting ≤ n) (hus : us.map Lookahead.mark = layout s.lines) {next' : Lookahead}
    (hnext : next'.newlineBefore = true) :
    ∃ s', s'.erase = s.erase ∧
      StatementPhrase (ExpressionPhrase n) (BlockPhrase n) next' us s' := by
  cases hs with
  | declaration _ =>
    rw [Statement.lines] at hus
    rw [Statement.nesting] at hn
    obtain ⟨d', herase, hd⟩ := declaration_of_words hn (lexemes_of_line hus)
    exact ⟨.declaration d', by rw [Statement.erase, Statement.erase, herase], .declaration hd⟩
  | assignment _ _ _ =>
    rw [Statement.lines] at hus
    rw [Statement.nesting] at hn
    obtain ⟨name, us₁, rfl, hname, h₁⟩ := List.map_eq_cons_iff.1 (lexemes_of_line hus)
    obtain ⟨assign, us₂, rfl, hassign, h₂⟩ := List.map_eq_cons_iff.1 h₁
    obtain ⟨e', herase, he⟩ := expression_of_words hn h₂
    exact ⟨_, by rw [Statement.erase, Statement.erase, herase], .assignment hname hassign he⟩
  | call _ _ =>
    rw [Statement.lines] at hus
    rw [Statement.nesting] at hn
    obtain ⟨name, us₁, rfl, hname, h₁⟩ := List.map_eq_cons_iff.1 (lexemes_of_line hus)
    obtain ⟨left, inner, right, rfl, hleft, hinner, hright⟩ := parenthesized_split h₁
    obtain ⟨es', herase, hes⟩ := arguments_of_words _ n inner hn hinner
    exact ⟨_, by rw [Statement.erase, Statement.erase, herase],
      .call hname (.intro hleft hes hright)⟩
  | conditional _ _ hb =>
    rw [Statement.lines] at hus
    rw [Statement.nesting] at hn
    obtain ⟨t, us₁, us₂, e', b', rfl, ht, he, hcondition, hb', hblock⟩ :=
      tested_of_lines (hB _ _ hb) hn hus
    exact ⟨_, by rw [Statement.erase, Statement.erase, he, hb'], .conditional ht hcondition hblock⟩
  | alternative _ _ hb _ hb' => exact alternative_of_lines (hB _ _ hb) (hB _ _ hb') hn hus next'
  | loop _ _ hb =>
    rw [Statement.lines] at hus
    rw [Statement.nesting] at hn
    obtain ⟨t, us₁, us₂, e', b', rfl, ht, he, hcondition, hb', hblock⟩ :=
      tested_of_lines (hB _ _ hb) hn hus
    exact ⟨_, by rw [Statement.erase, Statement.erase, he, hb'], .loop ht hcondition hblock⟩
  | choice _ hhead hcases =>
    rw [Statement.lines] at hus
    rw [Statement.nesting, Nat.max_le, Nat.max_le] at hn
    obtain ⟨t, us₁, left, us₂, right, rfl, ⟨ht, -⟩, h₁, hleft, h₂, hright, -⟩ := braced_split hus
    obtain ⟨guards', subject', hguards, hsubject, hhead'⟩ :=
      choiceHead_of_words hhead hn.1 hn.2.1 h₁
    obtain ⟨-, hc, hcs, -⟩ := hcases
    obtain ⟨us₃, us₄, c', cs', rfl, hc', hcs', hphrase, hphrases⟩ :=
      cases_of_lines hB (List.forall_mem_cons.2 ⟨⟨_, hc⟩, hcs.mem⟩) hn.2.2 h₂
    refine ⟨.choice t.position guards' subject' (c' :: cs'), ?_, ?_⟩
    · rw [Statement.erase, Statement.erase, hguards, hsubject, Case.eraseAll, Case.eraseAll, hc',
        hcs']
    · have := CaseList.intro hleft hphrase hphrases hright
      exact .choice ht hhead' (by simpa using this)
  | value _ _ _ =>
    rw [Statement.lines, layout_singleton] at hus
    rw [Statement.nesting] at hn
    obtain ⟨t, us₁, rfl, ht, h₁⟩ := List.map_eq_cons_iff.1 hus
    -- the value stands on the line of its keyword: on the next line it would be another statement
    obtain ⟨hwords, hinline⟩ := inline_of_marks h₁
    obtain ⟨e', herase, he⟩ := expression_of_words (Nat.le_trans (Nat.le_max_left ..) hn) hwords
    obtain ⟨first, us₂, rfl, -⟩ := expression_first n _ _ he
    refine ⟨.giveBack t.position (some e'), ?_,
      .value (Prod.mk.inj ht).1 (hinline first List.mem_cons_self) he⟩
    rw [Statement.erase, Statement.erase, Option.map_some, Option.map_some, herase]
  -- nothing on the line is taken for a value, since what follows is on a line of its own
  | noValue _ _ =>
    rw [Statement.lines, layout_singleton] at hus
    obtain ⟨t, us₁, rfl, ht, h₁⟩ := List.map_eq_cons_iff.1 hus
    obtain rfl := List.map_eq_nil_iff.1 h₁
    exact ⟨.giveBack t.position none, by rw [Statement.erase, Statement.erase],
      .noValue (Prod.mk.inj ht).1 (.inl hnext)⟩

theorem statements_of_lines (hB : ∀ ts b, B ts b → RederivesBlock b) {last : Lookahead}
    (hlast : last.newlineBefore = true) {ss : List Statement}
    (hss : ∀ s ∈ ss, ∃ next ts, StatementPhrase E B next ts s)
    (hn : Statement.nestingOf ss ≤ n)
    (hus : us.map Lookahead.mark = layout (Statement.linesOf ss)) :
    ∃ ss', Statement.eraseAll ss' = Statement.eraseAll ss ∧
      StatementList (ExpressionPhrase n) (BlockPhrase n) last us ss' := by
  induction ss generalizing us with
  | nil =>
    rw [Statement.linesOf] at hus
    obtain rfl := List.map_eq_nil_iff.1 hus
    exact ⟨[], rfl, .nil⟩
  | cons s ss ih =>
    rw [Statement.linesOf, layout_append] at hus
    rw [Statement.nestingOf, Nat.max_le] at hn
    obtain ⟨⟨next, ts, hs⟩, hrest⟩ := List.forall_mem_cons.1 hss
    obtain ⟨us₁, us₂, rfl, h₁, h₂⟩ := List.map_eq_append_iff.1 hus
    obtain ⟨s', herase, hs'⟩ :=
      statement_of_lines hB hs hn.1 h₁ (newlineBefore_headD h₂ hlast)
    obtain ⟨ss', hall, hss'⟩ := ih hrest hn.2 h₂
    exact ⟨s' :: ss', by rw [Statement.eraseAll, Statement.eraseAll, herase, hall],
      .cons hs' hss'⟩

end

/-- **The lines of a block derive it again.** -/
theorem block_of_lines (depth : Nat) :
    ∀ ts b, BlockPhrase depth ts b → RederivesBlock b := by
  -- on the depth of the derivation that the block came with
  induction depth with
  | zero => exact nofun
  | succ depth ih =>
    rintro _ _ ⟨-, hss, -⟩ n hn left us right hleft hus hright hline
    rw [Block.nesting] at hn
    rw [Block.lines] at hus
    obtain ⟨n, rfl⟩ : ∃ m, n = m + 1 := ⟨n - 1, by omega⟩
    obtain ⟨ss', herase, hss'⟩ :=
      statements_of_lines ih hline hss.mem (Nat.le_of_succ_le_succ hn) hus
    exact ⟨.mk left.position ss', by rw [Block.erase, Block.erase, herase],
      .intro hleft hss' hright⟩

/-! ## Functions -/

section
variable {us : List Lookahead}

theorem parameter_of_words {p : Parameter} (hus : us.map Lookahead.lexeme = p.words) :
    ∃ group, group.map Parameter.erase = [p.erase] ∧ ParameterGroup us group := by
  obtain ⟨name, us₁, rfl, hname, h₁⟩ := List.map_eq_cons_iff.1 hus
  obtain ⟨type, us₂, rfl, htype, h₂⟩ := List.map_eq_cons_iff.1 h₁
  obtain rfl := List.map_eq_nil_iff.1 h₂
  exact ⟨[⟨name.position, p.name, p.type⟩], rfl, .intro (.intro hname) .nil (.intro htype)⟩

/-- Parameters are found again as groups of one. -/
theorem parameters_of_words {ps : List Parameter}
    (hus : us.map Lookahead.lexeme = commaWords (ps.map Parameter.words)) :
    ∃ ps', ps'.map Parameter.erase = ps.map Parameter.erase ∧ ParameterList us ps' := by
  cases ps with
  | nil =>
    obtain rfl := List.map_eq_nil_iff.1 hus
    exact ⟨[], rfl, .none⟩
  | cons p ps =>
    rw [List.map_cons, commaWords_cons] at hus
    obtain ⟨us₁, us₂, rfl, h₁, h₂⟩ := List.map_eq_append_iff.1 hus
    obtain ⟨group, hgroup, hphrase⟩ := parameter_of_words h₁
    obtain ⟨groups, hgroups, hphrases⟩ := afterCommas_of_words
      (f := List.map Parameter.erase) (g := fun p => [p.erase])
      (fun _ _ _ h => parameter_of_words h) h₂
    refine ⟨group ++ groups.flatten, ?_, .some hphrase hphrases⟩
    rw [List.map_append, hgroup, List.map_flatten, hgroups, List.map_cons, List.singleton_append,
      ← List.flatMap_def, ← List.map_eq_flatMap]

theorem returnType_of_words {type : ValueType} (hus : us.map Lookahead.lexeme = type.words) :
    ReturnType us type := by
  cases type with
  | void =>
    obtain rfl := List.map_eq_nil_iff.1 hus
    exact .none
  | basic type =>
    obtain ⟨t, us₁, rfl, ht, h₁⟩ := List.map_eq_cons_iff.1 hus
    obtain rfl := List.map_eq_nil_iff.1 h₁
    exact .some (.intro ht)

variable {n depth : Nat}

theorem function_of_lines {ts : List Lookahead} {f : Function}
    (hf : FunctionPhrase (BlockPhrase depth) ts f) (hn : f.body.nesting ≤ n)
    (hus : us.map Lookahead.mark = layout f.lines) :
    ∃ f', f'.erase = f.erase ∧ FunctionPhrase (BlockPhrase n) us f' := by
  obtain ⟨ts', hbody⟩ : ∃ ts', BlockPhrase depth ts' f.body := by
    obtain ⟨-, -, -, -, -, hbody⟩ := hf
    exact ⟨_, hbody⟩
  obtain ⟨t, us₁, left, us₂, right, rfl, ⟨ht, -⟩, h₁, hleft, h₂, hright, hline⟩ :=
    braced_split hus
  obtain ⟨us₃, us₄, rfl, h₃, h₄⟩ := List.map_eq_append_iff.1 h₁
  obtain ⟨opening, inner, closing, rfl, hopening, hinner, hclosing⟩ := parenthesized_split h₃
  obtain ⟨ps', hps, hparameters⟩ := parameters_of_words hinner
  obtain ⟨b', hb, hblock⟩ :=
    block_of_lines depth _ _ hbody n hn left us₂ right hleft h₂ hright hline
  refine ⟨⟨t.position, f.name, ps', f.returnType, b'⟩, ?_, ?_⟩
  · simp only [Function.erase, hps, hb]
  · have := FunctionPhrase.intro ht hopening hparameters hclosing (returnType_of_words h₄) hblock
    simpa using this

/-- **The lines of some functions derive them again.** -/
theorem functions_of_lines {fs : List Function}
    (hfs : ∀ f ∈ fs, ∃ ts, FunctionPhrase (BlockPhrase depth) ts f)
    (hn : ∀ f ∈ fs, f.body.nesting ≤ n)
    (hus : us.map Lookahead.mark = fs.flatMap fun f => layout f.lines) :
    ∃ fs', fs'.map Function.erase = fs.map Function.erase ∧
      FunctionList (BlockPhrase n) us fs' := by
  induction fs generalizing us with
  | nil =>
    obtain rfl := List.map_eq_nil_iff.1 hus
    exact ⟨[], rfl, .nil⟩
  | cons f fs ih =>
    rw [List.flatMap_cons] at hus
    obtain ⟨⟨ts, hf⟩, hfs⟩ := List.forall_mem_cons.1 hfs
    obtain ⟨hnf, hnfs⟩ := List.forall_mem_cons.1 hn
    obtain ⟨us₁, us₂, rfl, h₁, h₂⟩ := List.map_eq_append_iff.1 hus
    obtain ⟨f', herase, hf'⟩ := function_of_lines hf hnf h₁
    obtain ⟨fs', hall, hfs'⟩ := ih hfs hnfs h₂
    exact ⟨f' :: fs', by rw [List.map_cons, List.map_cons, herase, hall], .cons hf' hfs'⟩

end

end FLang
