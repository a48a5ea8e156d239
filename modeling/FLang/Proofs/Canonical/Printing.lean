import FLang.Proofs.Canonical.Words
import FLang.Proofs.Grammar
import FLang.Proofs.Lexing.Segments

/-!
# The printed text is made of the canonical words

Whatever can be written is printed, and the text of every construct is made of its canonical words:
in front of a separating text it splits into their spellings (`Spelled`). Lines are compared one by
one (`Printed`); the text of a program is made of the words of its lines, with an end of line behind
each of them (`program_segments`).

The statements of a block are followed along a derivation of the block, which says what they can be.
-/

namespace FLang

open Grammar

variable {limits : Limits}

/-! ## Spelled texts -/

/-- In front of every separating text, a text is made of some words. -/
def Spelled (limits : Limits) (text : List Char) (words : List Lexeme) : Prop :=
  ∀ rest, Separates rest → Segments limits (text ++ rest) words rest

/-- The characters that the printer puts behind words. -/
def separators : List Char := [' ', '\n', '(', ')', ',']

/-- A text that starts with a separator ends the word before it. -/
theorem separates_cons {c : Char} {rest : List Char} (h : c ∈ separators) :
    Separates (c :: rest) := by
  intro d hd
  obtain rfl : c = d := by simpa using hd
  have hall : (separators.all fun c => !Text.isNamePart c && c ≠ '.' && c ≠ '=' && c ≠ '>') =
      true := by decide
  simpa [and_assoc] using List.all_eq_true.1 hall c h

namespace Spelled

variable {text text' : List Char} {words words' : List Lexeme}

theorem nil : Spelled limits [] [] :=
  fun _ _ => .nil

/-- A blank in front of a text adds no word. -/
theorem space (h : Spelled limits text words) : Spelled limits (' ' :: text) words :=
  fun rest hrest => .space (h rest hrest)

/-- Words are spelled one after the other if a separator stands between them. -/
theorem append (h : Spelled limits text words) {c : Char} (hc : c ∈ separators)
    (h' : Spelled limits (c :: text') words') :
    Spelled limits (text ++ c :: text') (words ++ words') := by
  intro rest hrest
  rw [List.append_assoc]
  exact (h _ (separates_cons hc)).append (h' rest hrest)

/-- Words are spelled one after the other with a space between them. -/
theorem append_space (h : Spelled limits text words) (h' : Spelled limits text' words') :
    Spelled limits (text ++ ' ' :: text') (words ++ words') :=
  h.append (by decide) h'.space

/-- A symbol that goes on with no character is spelled in front of any words. -/
theorem cons_symbol {c : Char} {l : Lexeme} (hc : Lexeme.ofChar? c = some l)
    (hpair : ∀ d, Lexeme.ofPair? c d = none) (h : Spelled limits text words) :
    Spelled limits (c :: text) (l :: words) := by
  intro rest hrest
  rw [List.cons_append, ← List.singleton_append]
  exact .cons (.ofChar hc fun d _ => hpair d) (h rest hrest)

end Spelled

/-- A word that can be written is spelled by its own spelling. -/
theorem Writable.spelled {l : Lexeme} (h : Writable limits l) :
    Spelled limits l.spelling [l] :=
  fun _ hrest => .cons (h.spells hrest) .nil

/-- Symbols can always be written. -/
theorem spelled_symbol (l : Lexeme) (h : l.isSymbol = true) : Spelled limits l.spelling [l] :=
  Writable.spelled (.symbol h)

/-- Parentheses need no blanks around them. -/
theorem Spelled.parentheses {text : List Char} {words : List Lexeme}
    (h : Spelled limits text words) :
    Spelled limits ('(' :: (text ++ [')'])) (parenthesized words) := by
  have hclose : Spelled limits [')'] [.punctuation .rightParenthesis] :=
    spelled_symbol (.punctuation .rightParenthesis) rfl
  exact Spelled.cons_symbol rfl (fun d => by simp [Lexeme.ofPair?]) (h.append (by decide) hclose)

/-- Texts are spelled one by one. -/
abbrev SpelledAll (limits : Limits) (texts : List String) (lines : List (List Lexeme)) : Prop :=
  List.Forall₂ (fun text words => Spelled limits text.toList words) texts lines

/-- Texts are spelled one after the other with separators between them that are spelled as well. -/
theorem spelled_intercalate {separator : String} (c : Char) (rest : List Char)
    (between : List Lexeme) (hc : c ∈ separators) (hseparator : separator.toList = c :: rest)
    (hbetween : ∀ text words, Spelled limits text words →
      Spelled limits (c :: rest ++ text) (between ++ words)) {texts : List String}
    {items : List (List Lexeme)} (h : SpelledAll limits texts items) :
    Spelled limits (String.intercalate separator texts).toList
      (List.intercalate between items) := by
  rw [String.toList_intercalate, hseparator]
  induction h with
  | nil => exact .nil
  | cons hfirst hrest ih =>
    cases hrest with
    | nil => simpa [List.intercalate] using hfirst
    | cons _ _ =>
      simp only [List.map_cons] at ih ⊢
      rw [List.intercalate_cons_cons, List.intercalate_cons_cons, List.append_assoc,
        List.append_assoc]
      exact hfirst.append hc (hbetween _ _ ih)

/-- Texts with commas between them spell their words with commas between them. -/
theorem spelled_commaSeparated {texts : List String} {items : List (List Lexeme)}
    (h : SpelledAll limits texts items) :
    Spelled limits (Printer.commaSeparated texts).toList (commaWords items) := by
  have hcomma : Spelled limits [','] [.punctuation .comma] :=
    spelled_symbol (.punctuation .comma) rfl
  exact spelled_intercalate ',' [' '] [.punctuation .comma] (by decide) rfl
    (fun _ _ hspelled => hcomma.append_space hspelled) h

/-- A call is spelled by its name and its arguments in parentheses. -/
theorem spelled_call {name : String} {texts : List String} {items : List (List Lexeme)}
    (hname : Writable limits (.identifier name)) (h : SpelledAll limits texts items) :
    Spelled limits (name ++ "(" ++ Printer.commaSeparated texts ++ ")").toList
      (callWords name items) := by
  have htext : (name ++ "(" ++ Printer.commaSeparated texts ++ ")").toList =
      name.toList ++ '(' :: ((Printer.commaSeparated texts).toList ++ [')']) := by simp
  rw [htext]
  exact hname.spelled.append (by decide) (spelled_commaSeparated h).parentheses

theorem mem_parenthesized {words : List Lexeme} {l : Lexeme} (h : l ∈ words) :
    l ∈ parenthesized words :=
  List.mem_append_left _ (List.mem_cons_of_mem _ h)

/-- The words of some items stand among the items with commas. -/
theorem mem_commaWords {items : List (List Lexeme)} {l : Lexeme} (h : l ∈ items.flatten) :
    l ∈ commaWords items := by
  unfold commaWords
  induction items with
  | nil => exact h
  | cons first rest ih =>
    rw [List.flatten_cons, List.mem_append] at h
    cases rest with
    | nil => simpa [List.intercalate] using h
    | cons second rest =>
      rw [List.intercalate_cons_cons]
      rcases h with h | h
      · exact List.mem_append_left _ (List.mem_append_left _ h)
      · exact List.mem_append_right _ (ih h)

theorem mem_callWords {name : String} {items : List (List Lexeme)} {l : Lexeme}
    (h : l ∈ items.flatten) : l ∈ callWords name items :=
  List.mem_cons_of_mem _ (mem_parenthesized (mem_commaWords h))

/-! ## Expressions -/

/-- A constant that can be written is printed as it is spelled. -/
theorem print_literal {value : Literal} (h : Writable limits (.constant value)) :
    ∃ text, Printer.literal value = .ok text ∧
      text.toList = (Lexeme.constant value).spelling := by
  cases value with
  | int n =>
    have htext : Decimal.intText? n = some (Decimal.intText n) := by
      rw [Decimal.intText?, if_pos (h.fits rfl)]
    refine ⟨Decimal.intText n, ?_, ?_⟩
    · unfold Printer.literal
      simp only [htext]
    · simp [Decimal.intText, Lexeme.spelling]
  | float x => exact ⟨_, rfl, rfl⟩
  | bool b => cases b <;> exact ⟨_, rfl, rfl⟩
  | string s => exact ⟨_, rfl, rfl⟩

mutual

/-- **An expression is printed as its words**, if all of them can be written. -/
theorem print_expression : ∀ (e : Expression), (∀ l ∈ e.words, Writable limits l) →
    ∃ text, Printer.expression e = .ok text ∧ Spelled limits text.toList e.words
  | .literal _ value, h => by
    obtain ⟨text, hprint, htext⟩ := print_literal (h _ (List.mem_singleton_self _))
    refine ⟨text, by rw [Printer.expression, hprint], ?_⟩
    rw [htext]
    exact (h _ (List.mem_singleton_self _)).spelled
  | .variable _ name, h =>
    ⟨name, by rw [Printer.expression], (h _ (List.mem_singleton_self _)).spelled⟩
  | .negate _ operand, h => by
    have hwords : ∀ l ∈ operand.words, Writable limits l := fun l hl => h l (by
      rw [Expression.words]
      split
      · exact List.mem_cons_of_mem _ (mem_parenthesized hl)
      · exact List.mem_cons_of_mem _ hl)
    obtain ⟨text, hprint, htext⟩ := print_expression operand hwords
    refine ⟨_, by rw [Printer.expression, hprint]; rfl, ?_⟩
    -- no symbol of two characters starts with a minus, so whatever follows can stand right behind
    -- it
    have hminus : ∀ {chars : List Char} {words : List Lexeme}, Spelled limits chars words →
        Spelled limits ('-' :: chars) (.operator (.arithmetic .subtract) :: words) :=
      Spelled.cons_symbol rfl (fun d => by simp [Lexeme.ofPair?])
    rw [Expression.words]
    split
    · have hchars : ("-(" ++ text ++ ")").toList = '-' :: '(' :: (text.toList ++ [')']) := by simp
      rw [hchars]
      exact hminus htext.parentheses
    · rw [String.toList_append]
      exact hminus htext
  | .cast _ operand target, h => by
    rw [Expression.words] at h
    have hword : ∀ l ∈ operand.words ++ [.keyword .as, .typeName target], Writable limits l :=
      fun l hl => h l (mem_parenthesized hl)
    obtain ⟨text, hprint, htext⟩ := print_expression operand fun l hl =>
      hword l (List.mem_append_left _ hl)
    refine ⟨_, by rw [Printer.expression, hprint]; rfl, ?_⟩
    -- the printer adds its spaces and parentheses to a string; the words are spelled by the
    -- characters
    have hchars : ("(" ++ text ++ " as " ++ target.name ++ ")").toList =
        '(' :: ((text.toList ++ ' ' :: ("as".toList ++ ' ' :: target.name.toList)) ++ [')']) := by
      simp
    have has : Spelled limits "as".toList [.keyword .as] :=
      (hword (.keyword .as) (by simp)).spelled
    have htarget : Spelled limits target.name.toList [.typeName target] :=
      (hword (.typeName target) (by simp)).spelled
    rw [hchars, Expression.words]
    exact (htext.append_space (has.append_space htarget)).parentheses
  | .binary _ op left right, h => by
    rw [Expression.words] at h
    have hword : ∀ l ∈ left.words ++ .operator op :: right.words, Writable limits l :=
      fun l hl => h l (mem_parenthesized hl)
    obtain ⟨leftText, hleft, hleftText⟩ := print_expression left fun l hl =>
      hword l (List.mem_append_left _ hl)
    obtain ⟨rightText, hright, hrightText⟩ := print_expression right fun l hl =>
      hword l (List.mem_append_right _ (List.mem_cons_of_mem _ hl))
    refine ⟨_, by rw [Printer.expression, hleft, hright]; rfl, ?_⟩
    have hchars : ("(" ++ leftText ++ " " ++ op.symbol ++ " " ++ rightText ++ ")").toList =
        '(' :: ((leftText.toList ++ ' ' :: (op.symbol.toList ++ ' ' :: rightText.toList)) ++
          [')']) := by
      simp
    have hop : Spelled limits op.symbol.toList [.operator op] :=
      (hword (.operator op) (by simp)).spelled
    rw [hchars, Expression.words]
    exact (hleftText.append_space (hop.append_space hrightText)).parentheses
  | .call _ name arguments, h => by
    rw [Expression.words] at h
    have hword : ∀ l ∈ (Expression.wordsOf arguments).flatten, Writable limits l :=
      fun l hl => h l (mem_callWords hl)
    obtain ⟨texts, hprint, htexts⟩ := print_expressions arguments hword
    refine ⟨_, by rw [Printer.expression, hprint]; rfl, ?_⟩
    rw [Expression.words]
    exact spelled_call (h _ (List.mem_cons_self ..)) htexts

/-- Arguments are printed as their words, one text for each. -/
theorem print_expressions : ∀ (es : List Expression),
    (∀ l ∈ (Expression.wordsOf es).flatten, Writable limits l) →
    ∃ texts, Printer.expressions es = .ok texts ∧ SpelledAll limits texts (Expression.wordsOf es)
  | [], _ => ⟨[], by rw [Printer.expressions], .nil⟩
  | first :: rest, h => by
    rw [Expression.wordsOf, List.flatten_cons] at h
    obtain ⟨text, hprint, htext⟩ := print_expression first fun l hl =>
      h l (List.mem_append_left _ hl)
    obtain ⟨texts, hprints, htexts⟩ := print_expressions rest fun l hl =>
      h l (List.mem_append_right _ hl)
    refine ⟨text :: texts, ?_, ?_⟩
    · rw [Printer.expressions, hprint, hprints]
      rfl
    · rw [Expression.wordsOf]
      exact .cons htext htexts

end

/-! ## Lines -/

/-- Lines are printed, and made of some words. -/
def Printed (limits : Limits) (printed : Except Fault (List String))
    (lines : List (List Lexeme)) : Prop :=
  ∃ texts, printed = .ok texts ∧ SpelledAll limits texts lines

/-- A text that ends in a space is made of some words. -/
def SpelledHeader (limits : Limits) (header : String) (words : List Lexeme) : Prop :=
  ∃ text, header.toList = text ++ [' '] ∧ Spelled limits text words

/-- A text and a blank are a header, since the blank ends its last word. -/
theorem SpelledHeader.of_append {text : String} {words : List Lexeme}
    (h : Spelled limits text.toList words) : SpelledHeader limits (text ++ " ") words :=
  ⟨text.toList, by simp, h⟩

/-- An opening brace ends the line of a header. -/
theorem SpelledHeader.brace {header : String} {words : List Lexeme}
    (h : SpelledHeader limits header words) :
    Spelled limits (header ++ "\x7b").toList (words ++ [.punctuation .leftBrace]) := by
  obtain ⟨text, htext, hspelled⟩ := h
  have hbrace : Spelled limits "\x7b".toList [.punctuation .leftBrace] :=
    spelled_symbol (.punctuation .leftBrace) rfl
  rw [String.toList_append, htext, List.append_assoc]
  exact hspelled.append_space hbrace

/-- Lines below lines spell what both spell. -/
theorem SpelledAll.append {texts texts' : List String} {lines lines' : List (List Lexeme)}
    (h : SpelledAll limits texts lines) (h' : SpelledAll limits texts' lines') :
    SpelledAll limits (texts ++ texts') (lines ++ lines') :=
  List.rel_append h h'

/-- Indenting lines adds no word. -/
theorem SpelledAll.indent {texts : List String} {lines : List (List Lexeme)}
    (h : SpelledAll limits texts lines) : SpelledAll limits (Printer.indent texts) lines := by
  rw [Printer.indent, SpelledAll, List.forall₂_map_left_iff]
  refine h.imp fun text words hspelled => ?_
  rw [String.toList_append]
  exact hspelled.space.space.space.space

/-- A header and lines in braces spell its words and theirs. -/
theorem SpelledAll.braced {header : String} {words : List Lexeme} {texts : List String}
    {lines : List (List Lexeme)} (hheader : SpelledHeader limits header words)
    (h : SpelledAll limits texts lines) :
    SpelledAll limits (Printer.braced header texts) (bracedLines words lines) := by
  have hclose : Spelled limits "\x7d".toList [.punctuation .rightBrace] :=
    spelled_symbol (.punctuation .rightBrace) rfl
  exact SpelledAll.append (.cons hheader.brace h) (.cons hclose .nil)

/-- A comma behind the last line is a word on it. -/
theorem SpelledAll.extendLast {texts : List String} {lines : List (List Lexeme)}
    (h : SpelledAll limits texts lines) :
    SpelledAll limits (Printer.extendLast "," texts)
      (extendLastLine [.punctuation .comma] lines) := by
  induction h with
  | nil => exact .nil
  | cons hfirst hrest ih =>
    cases hrest with
    | nil =>
      have hcomma : Spelled limits [','] [.punctuation .comma] :=
        spelled_symbol (.punctuation .comma) rfl
      refine .cons ?_ .nil
      rw [String.toList_append]
      exact hfirst.append (by decide) hcomma
    | cons _ _ => exact .cons hfirst ih

/-! ## Statements -/

section
variable {E : Phrase Expression} {B : Phrase Block}

/-- Every word of some lines can be written. -/
abbrev WritableAll (limits : Limits) (lines : List (List Lexeme)) : Prop :=
  ∀ words ∈ lines, ∀ l ∈ words, Writable limits l

/-- If its words can be written, the inside of a block is printed. -/
def PrintsBlock (limits : Limits) (b : Block) : Prop :=
  WritableAll limits b.lines → Printed limits (Printer.body b) b.lines

/-- A declaration is printed as its words. -/
theorem print_declaration {d : Declaration} (h : ∀ l ∈ d.words, Writable limits l) :
    ∃ text, Printer.declaration d = .ok text ∧ Spelled limits text.toList d.words := by
  unfold Declaration.words at h
  obtain ⟨text, hprint, htext⟩ := print_expression d.initializer fun l hl => h l (by simp [hl])
  refine ⟨_, by rw [Printer.declaration, hprint]; rfl, ?_⟩
  have hchars : (d.type.name ++ " " ++ d.name ++ " := " ++ text).toList =
      d.type.name.toList ++
        ' ' :: (d.name.toList ++ ' ' :: (":=".toList ++ ' ' :: text.toList)) := by
    simp
  have htype : Spelled limits d.type.name.toList [.typeName d.type] :=
    (h (.typeName d.type) (by simp)).spelled
  have hname : Spelled limits d.name.toList [.identifier d.name] :=
    (h (.identifier d.name) (by simp)).spelled
  have hdeclare : Spelled limits ":=".toList [.punctuation .declare] :=
    spelled_symbol (.punctuation .declare) rfl
  rw [hchars]
  exact htype.append_space (hname.append_space (hdeclare.append_space htext))

/-- Guards are printed as their words, one text for each. -/
theorem print_declarations : ∀ (ds : List Declaration),
    WritableAll limits (ds.map Declaration.words) →
    ∃ texts, Printer.declarations ds = .ok texts ∧
      SpelledAll limits texts (ds.map Declaration.words)
  | [], _ => ⟨[], rfl, .nil⟩
  | first :: rest, h => by
    obtain ⟨text, hprint, htext⟩ := print_declaration (h _ (List.mem_cons_self ..))
    obtain ⟨texts, hprints, htexts⟩ := print_declarations rest fun words hw =>
      h words (List.mem_cons_of_mem _ hw)
    refine ⟨text :: texts, ?_, .cons htext htexts⟩
    rw [Printer.declarations, hprint, hprints]
    rfl

/-- A keyword, and an expression after it if there is one, make up a header. -/
theorem spelled_keyword {word : Keyword} {start text : String} {words : List Lexeme}
    (hstart : start = word.text ++ " ") (hword : Writable limits (.keyword word))
    (h : Spelled limits text.toList words) :
    Spelled limits (start ++ text).toList (.keyword word :: words) := by
  rw [hstart, String.toList_append, String.toList_append, List.append_assoc]
  exact hword.spelled.append_space h

/-- The header of a choice is printed as its guards or its subject. -/
theorem print_choiceHeader {guards : List Declaration} {subject : Option Expression}
    (h : ∀ l ∈ Lexeme.keyword .switch :: choiceWords guards subject, Writable limits l) :
    ∃ header, Printer.choiceHeader guards subject = .ok header ∧
      SpelledHeader limits header (.keyword .switch :: choiceWords guards subject) := by
  have hswitch := h _ (List.mem_cons_self ..)
  have hwords : ∀ l ∈ choiceWords guards subject, Writable limits l := fun l hl =>
    h l (List.mem_cons_of_mem _ hl)
  unfold choiceWords at hwords ⊢
  unfold Printer.choiceHeader
  split
  · next hguards =>
    rw [if_pos hguards] at hwords
    cases subject with
    | none => exact ⟨_, rfl, "switch".toList, by decide, hswitch.spelled⟩
    | some value =>
      obtain ⟨text, hprint, htext⟩ := print_expression value hwords
      refine ⟨_, by simp only [hprint]; rfl, .of_append ?_⟩
      exact spelled_keyword (by decide) hswitch htext
  · next hguards =>
    rw [if_neg hguards] at hwords
    obtain ⟨texts, hprint, htexts⟩ := print_declarations guards fun words hw l hl =>
      hwords l (mem_commaWords (List.mem_flatten.2 ⟨words, hw, hl⟩))
    refine ⟨_, by rw [hprint]; rfl, .of_append ?_⟩
    exact spelled_keyword (by decide) hswitch (spelled_commaSeparated htexts)

/-- What is written behind a header comes after its words. -/
theorem SpelledHeader.append {header text : String} {words words' : List Lexeme}
    (h : SpelledHeader limits header words) (h' : Spelled limits text.toList words') :
    Spelled limits (header ++ text).toList (words ++ words') := by
  obtain ⟨start, hstart, hspelled⟩ := h
  rw [String.toList_append, hstart, List.append_assoc]
  exact hspelled.append_space h'

/-- What can be written in braces can be written by itself. -/
theorem WritableAll.of_braced {words : List Lexeme} {lines : List (List Lexeme)}
    (h : WritableAll limits (bracedLines words lines)) :
    (∀ l ∈ words, Writable limits l) ∧ WritableAll limits lines := by
  constructor
  · intro l hl
    exact h _ (List.mem_append_left _ (List.mem_cons_self ..)) l (List.mem_append_left _ hl)
  · intro line hline
    exact h line (List.mem_append_left _ (List.mem_cons_of_mem _ hline))

/-- What can be written with more on its last line can be written without. -/
theorem WritableAll.of_extendLastLine {words : List Lexeme} :
    ∀ {lines : List (List Lexeme)}, WritableAll limits (extendLastLine words lines) →
      WritableAll limits lines
  | [], _ => by
    intro line hline
    cases hline
  | [last], h => by
    intro line hline l hl
    obtain rfl := List.mem_singleton.1 hline
    exact h _ (List.mem_singleton_self _) l (List.mem_append_left _ hl)
  | first :: second :: rest, h => by
    intro line hline
    rcases List.mem_cons.1 hline with rfl | hline
    · exact h line (List.mem_cons_self ..)
    · exact WritableAll.of_extendLastLine (fun line hl => h line (List.mem_cons_of_mem _ hl)) line
        hline

/-! ### Cases -/

/-- What a case does is printed on the line of its label, or in braces below it. -/
theorem print_output (hB : ∀ ts b, B ts b → PrintsBlock limits b) {ts : List Lookahead}
    {output : CaseOutput} (hout : OutputPhrase E B ts output) {label : String}
    {words : List Lexeme} (hlabel : SpelledHeader limits label words)
    (hw : WritableAll limits (output.lines words)) :
    Printed limits (Printer.caseOutput label output) (output.lines words) := by
  cases hout with
  | expression he =>
    rename_i e
    rw [CaseOutput.lines] at hw ⊢
    obtain ⟨text, hprint, htext⟩ := print_expression e fun l hl =>
      hw _ (List.mem_singleton_self _) l (List.mem_append_right _ hl)
    refine ⟨_, by rw [Printer.caseOutput, hprint]; rfl, ?_⟩
    exact .cons (hlabel.append htext) .nil
  | block hb =>
    rw [CaseOutput.lines] at hw ⊢
    obtain ⟨texts, hprint, htexts⟩ := hB _ _ hb hw.of_braced.2
    exact ⟨_, by rw [Printer.caseOutput, hprint]; rfl, htexts.braced hlabel⟩

/-- The label of a case stands on its first line. -/
theorem WritableAll.of_label {output : CaseOutput} {words : List Lexeme}
    (h : WritableAll limits (output.lines words)) : ∀ l ∈ words, Writable limits l := by
  cases output with
  | expression value =>
    rw [CaseOutput.lines] at h
    exact fun l hl => h _ (List.mem_singleton_self _) l (List.mem_append_left _ hl)
  | block b =>
    rw [CaseOutput.lines] at h
    exact h.of_braced.1

/-- The label of a case is printed as its test. -/
theorem print_caseLabel {relation : Option Relation} {value : Expression}
    (h : ∀ l ∈ testWords relation value, Writable limits l) :
    ∃ text, Printer.caseLabel relation value = .ok text ∧
      Spelled limits text.toList (testWords relation value) := by
  cases relation with
  | none =>
    obtain ⟨text, hprint, htext⟩ := print_expression value h
    exact ⟨text, by rw [Printer.caseLabel, hprint]; rfl, htext⟩
  | some op =>
    obtain ⟨text, hprint, htext⟩ := print_expression value fun l hl =>
      h l (List.mem_cons_of_mem _ hl)
    refine ⟨_, by rw [Printer.caseLabel, hprint]; rfl, ?_⟩
    have hop : Spelled limits op.symbol.toList [.operator (.relation op)] :=
      spelled_symbol (.operator (.relation op)) rfl
    rw [String.toList_append, String.toList_append, List.append_assoc]
    exact hop.append_space htext

/-- An arrow behind a label is the last word of its header. -/
theorem spelled_arrow {text : String} {words : List Lexeme}
    (h : Spelled limits text.toList words) :
    SpelledHeader limits (text ++ " => ") (words ++ [.punctuation .arrow]) := by
  have harrow : Spelled limits "=>".toList [.punctuation .arrow] :=
    spelled_symbol (.punctuation .arrow) rfl
  exact ⟨text.toList ++ ' ' :: "=>".toList, by simp, h.append_space harrow⟩

/-- If its words can be written, a case is printed. -/
def PrintsCase (limits : Limits) (c : Case) : Prop :=
  WritableAll limits c.lines → Printed limits (Printer.case c) c.lines

/-- A case is printed as its lines. -/
theorem print_case (hB : ∀ ts b, B ts b → PrintsBlock limits b) {ts : List Lookahead} {c : Case}
    (hc : CasePhrase E B ts c) : PrintsCase limits c := by
  intro hw
  cases hc with
  | fallback _ _ hout =>
    rw [Case.lines] at hw ⊢
    have hdefault : Spelled limits "default".toList [.keyword .default] :=
      (hw.of_label (.keyword .default) (List.mem_cons_self ..)).spelled
    exact print_output hB hout (spelled_arrow hdefault) hw
  | test _ _ hout =>
    rw [Case.lines] at hw ⊢
    obtain ⟨text, hprint, htext⟩ := print_caseLabel fun l hl =>
      hw.of_label l (List.mem_append_left _ hl)
    rw [Printer.case, hprint]
    exact print_output hB hout (spelled_arrow htext) hw

/-- Cases are printed as their lines, with a comma behind each but the last. -/
theorem print_cases : ∀ {cs : List Case}, (∀ c ∈ cs, PrintsCase limits c) →
    WritableAll limits (Case.linesOf cs) → Printed limits (Printer.cases cs) (Case.linesOf cs)
  | [], _, _ => ⟨[], by rw [Printer.cases], by rw [Case.linesOf]; exact .nil⟩
  | [last], h, hw => by
    rw [Case.linesOf] at hw ⊢
    obtain ⟨texts, hprint, htexts⟩ := h last (List.mem_singleton_self _) hw
    exact ⟨_, by rw [Printer.cases, hprint]; rfl, htexts.indent⟩
  | first :: second :: rest, h, hw => by
    rw [Case.linesOf] at hw ⊢
    have hfirst : WritableAll limits first.lines :=
      WritableAll.of_extendLastLine fun line hl => hw line (List.mem_append_left _ hl)
    obtain ⟨texts, hprint, htexts⟩ := h first (List.mem_cons_self ..) hfirst
    obtain ⟨texts', hprint', htexts'⟩ := print_cases
      (fun c hc => h c (List.mem_cons_of_mem _ hc))
      (fun line hl => hw line (List.mem_append_right _ hl))
    refine ⟨_, by rw [Printer.cases, hprint, hprint']; rfl, ?_⟩
    exact htexts.extendLast.indent.append htexts'

/-! ### Blocks -/

/-- A keyword with an expression, and a block after it. -/
theorem print_tested {word : Keyword} {start : String} {e : Expression} {b : Block}
    (hstart : start = word.text ++ " ") (hb : PrintsBlock limits b)
    (hw : WritableAll limits (bracedLines (.keyword word :: e.words) b.lines)) :
    ∃ text texts, Printer.expression e = .ok text ∧ Printer.body b = .ok texts ∧
      SpelledAll limits (Printer.braced (start ++ text ++ " ") texts)
        (bracedLines (.keyword word :: e.words) b.lines) := by
  obtain ⟨hhead, hbody⟩ := hw.of_braced
  obtain ⟨text, hprint, htext⟩ := print_expression e fun l hl =>
    hhead l (List.mem_cons_of_mem _ hl)
  obtain ⟨texts, hprint', htexts⟩ := hb hbody
  refine ⟨text, texts, hprint, hprint', htexts.braced (.of_append ?_)⟩
  exact spelled_keyword hstart (hhead _ (List.mem_cons_self ..)) htext

/-- A conditional with two blocks. The brace that closes the first one opens a line. -/
theorem print_alternative {position : Position} {e : Expression} {b b' : Block}
    (hb : PrintsBlock limits b) (hb' : PrintsBlock limits b')
    (hw : WritableAll limits (Statement.conditional position e b (some b')).lines) :
    Printed limits (Printer.statement (.conditional position e b (some b')))
      (Statement.conditional position e b (some b')).lines := by
  rw [Statement.lines] at hw ⊢
  have hhead : ∀ l ∈ Lexeme.keyword .if :: e.words, Writable limits l := fun l hl =>
    hw _ (List.mem_append_left _ (List.mem_cons_self ..)) l (List.mem_append_left _ hl)
  have hthen : WritableAll limits b.lines := fun line hl =>
    hw line (List.mem_append_left _ (List.mem_cons_of_mem _ hl))
  obtain ⟨helse, hother⟩ := WritableAll.of_braced fun line hl =>
    hw line (List.mem_append_right _ hl)
  obtain ⟨text, hprint, htext⟩ := print_expression e fun l hl =>
    hhead l (List.mem_cons_of_mem _ hl)
  obtain ⟨texts, hprint', htexts⟩ := hb hthen
  obtain ⟨texts', hprint'', htexts'⟩ := hb' hother
  refine ⟨_, by rw [Printer.statement, hprint, hprint', hprint'']; rfl, ?_⟩
  have hif : SpelledHeader limits ("if " ++ text ++ " ") (.keyword .if :: e.words) :=
    .of_append (spelled_keyword (by decide) (hhead _ (List.mem_cons_self ..)) htext)
  have hclose : Spelled limits "\x7d".toList [.punctuation .rightBrace] :=
    spelled_symbol (.punctuation .rightBrace) rfl
  have hotherwise : Spelled limits "else".toList [.keyword .else] :=
    (helse (.keyword .else) (by simp)).spelled
  have hheader : SpelledHeader limits "\x7d else " [.punctuation .rightBrace, .keyword .else] :=
    ⟨"\x7d".toList ++ ' ' :: "else".toList, by decide, hclose.append_space hotherwise⟩
  exact SpelledAll.append (.cons hif.brace htexts) (htexts'.braced hheader)

/-- **A statement is printed as its lines**, one case for each statement. -/
theorem print_statement (hB : ∀ ts b, B ts b → PrintsBlock limits b) {next : Lookahead}
    {ts : List Lookahead} {s : Statement} (hs : StatementPhrase E B next ts s)
    (hw : WritableAll limits s.lines) : Printed limits (Printer.statement s) s.lines := by
  cases hs with
  | declaration _ =>
    rw [Statement.lines] at hw ⊢
    obtain ⟨text, hprint, htext⟩ := print_declaration (hw _ (List.mem_singleton_self _))
    exact ⟨_, by rw [Printer.statement, hprint]; rfl, .cons htext .nil⟩
  | @assignment name assign id ts e _ _ _ =>
    rw [Statement.lines] at hw ⊢
    have hwords := hw _ (List.mem_singleton_self _)
    obtain ⟨text, hprint, htext⟩ := print_expression e fun l hl => hwords l (by simp [hl])
    refine ⟨_, by rw [Printer.statement, hprint]; rfl, .cons ?_ .nil⟩
    have hname : Spelled limits id.toList [.identifier id] :=
      (hwords (.identifier id) (by simp)).spelled
    have hassign : Spelled limits "=".toList [.punctuation .assign] :=
      spelled_symbol (.punctuation .assign) rfl
    have hchars : (id ++ " = " ++ text).toList =
        id.toList ++ ' ' :: ("=".toList ++ ' ' :: text.toList) := by simp
    rw [hchars]
    exact hname.append_space (hassign.append_space htext)
  | @call name id ts es _ _ =>
    rw [Statement.lines] at hw ⊢
    have hwords := hw _ (List.mem_singleton_self _)
    obtain ⟨texts, hprint, htexts⟩ := print_expressions es fun l hl =>
      hwords l (mem_callWords hl)
    refine ⟨_, by rw [Printer.statement, Printer.call, hprint]; rfl, .cons ?_ .nil⟩
    exact spelled_call (hwords _ (List.mem_cons_self ..)) htexts
  | conditional _ _ hb =>
    rw [Statement.lines] at hw ⊢
    -- what is printed in front of the condition is the keyword and one space
    have hif : "if " = Keyword.if.text ++ " " := by decide
    obtain ⟨text, texts, hprint, hprint', htexts⟩ := print_tested hif (hB _ _ hb) hw
    exact ⟨_, by rw [Printer.statement, hprint, hprint']; rfl, htexts⟩
  | alternative _ _ hb _ hb' => exact print_alternative (hB _ _ hb) (hB _ _ hb') hw
  | loop _ _ hb =>
    rw [Statement.lines] at hw ⊢
    have hwhile : "while " = Keyword.while.text ++ " " := by decide
    obtain ⟨text, texts, hprint, hprint', htexts⟩ := print_tested hwhile (hB _ _ hb) hw
    exact ⟨_, by rw [Printer.statement, hprint, hprint']; rfl, htexts⟩
  | @choice t ts ts' guards subject cs _ _ hcs =>
    rw [Statement.lines] at hw ⊢
    obtain ⟨hhead, hbody⟩ := hw.of_braced
    obtain ⟨header, hprint, hheader⟩ := print_choiceHeader hhead
    have hcases : Printed limits (Printer.cases cs) (Case.linesOf cs) := by
      cases hcs with
      | intro _ hc hmore _ =>
        refine print_cases (fun c hmem => ?_) hbody
        rcases List.mem_cons.1 hmem with rfl | hmem
        · exact print_case hB hc
        · obtain ⟨ts', hc'⟩ := hmore.mem c hmem
          exact print_case hB hc'
    obtain ⟨texts, hprint', htexts⟩ := hcases
    exact ⟨_, by rw [Printer.statement, hprint, hprint']; rfl, htexts.braced hheader⟩
  | @value t first ts e _ _ _ =>
    rw [Statement.lines] at hw ⊢
    have hwords := hw _ (List.mem_singleton_self _)
    obtain ⟨text, hprint, htext⟩ := print_expression e fun l hl =>
      hwords l (List.mem_cons_of_mem _ hl)
    refine ⟨_, by rw [Printer.statement, hprint]; rfl, .cons ?_ .nil⟩
    exact spelled_keyword (by decide) (hwords _ (List.mem_cons_self ..)) htext
  | noValue _ _ =>
    rw [Statement.lines] at hw ⊢
    have hreturn : Spelled limits "return".toList [.keyword .return] :=
      (hw _ (List.mem_singleton_self _) _ (List.mem_singleton_self _)).spelled
    exact ⟨["return"], by rw [Printer.statement], .cons hreturn .nil⟩

/-- Statements are printed one below the other. -/
theorem print_statements (hB : ∀ ts b, B ts b → PrintsBlock limits b) :
    ∀ {ss : List Statement}, (∀ s ∈ ss, ∃ next ts, StatementPhrase E B next ts s) →
      WritableAll limits (Statement.linesOf ss) →
      Printed limits (Printer.statements ss) (Statement.linesOf ss)
  | [], _, _ => ⟨[], by rw [Printer.statements], by rw [Statement.linesOf]; exact .nil⟩
  | first :: rest, h, hw => by
    rw [Statement.linesOf] at hw ⊢
    obtain ⟨next, ts, hs⟩ := h first (List.mem_cons_self ..)
    obtain ⟨texts, hprint, htexts⟩ := print_statement hB hs fun line hl =>
      hw line (List.mem_append_left _ hl)
    obtain ⟨texts', hprint', htexts'⟩ := print_statements hB
      (fun s hs => h s (List.mem_cons_of_mem _ hs))
      (fun line hl => hw line (List.mem_append_right _ hl))
    exact ⟨_, by rw [Printer.statements, hprint, hprint']; rfl, htexts.append htexts'⟩

end

/-- Blocks of the grammar are printed, whatever their depth. -/
theorem print_block (n : Nat) : ∀ ts b, BlockPhrase n ts b → PrintsBlock limits b := by
  induction n with
  | zero =>
    intro ts b hb
    cases hb
  | succ n ih =>
    intro ts b hb hw
    cases hb with
    | intro _ hss _ =>
      rw [Block.lines] at hw ⊢
      obtain ⟨texts, hprint, htexts⟩ := print_statements ih hss.mem hw
      exact ⟨_, by rw [Printer.body, hprint]; rfl, htexts.indent⟩

/-! ## Programs -/

/-- Each parameter is printed with its type. -/
theorem spelled_parameters (ps : List Parameter)
    (h : WritableAll limits (ps.map Parameter.words)) :
    SpelledAll limits (ps.map Printer.parameter) (ps.map Parameter.words) := by
  induction ps with
  | nil => exact .nil
  | cons p ps ih =>
    have hwords := h p.words (List.mem_cons_self ..)
    have hname : Spelled limits p.name.toList [.identifier p.name] :=
      (hwords (.identifier p.name) (List.mem_cons_self ..)).spelled
    have htype : Spelled limits p.type.name.toList [.typeName p.type] :=
      (hwords (.typeName p.type) (by simp [Parameter.words])).spelled
    refine .cons ?_ (ih fun line hl => h line (List.mem_cons_of_mem _ hl))
    rw [Printer.parameter, String.toList_append, String.toList_append, List.append_assoc]
    exact hname.append_space htype

/-- A function is printed as its lines. -/
theorem print_function {n : Nat} {ts : List Lookahead} {f : Function}
    (hf : FunctionPhrase (BlockPhrase n) ts f) (hw : WritableAll limits f.lines) :
    Printed limits (Printer.function f) f.lines := by
  cases hf with
  | @intro name left right id ts ts' ts'' ps type body _ _ _ _ _ hbody =>
    rw [Function.lines] at hw ⊢
    obtain ⟨hhead, hlines⟩ := hw.of_braced
    obtain ⟨texts, hprint, htexts⟩ := print_block n _ _ hbody hlines
    have hps : SpelledAll limits (ps.map Printer.parameter) (ps.map Parameter.words) :=
      spelled_parameters ps fun line hl l hmem => hhead l
        (List.mem_append_left _ (mem_callWords (List.mem_flatten.2 ⟨line, hl, hmem⟩)))
    have hcall := spelled_call
      (hhead (.identifier id) (List.mem_append_left _ (List.mem_cons_self ..))) hps
    refine ⟨_, by rw [Printer.function, hprint]; rfl, htexts.braced ?_⟩
    cases type with
    | void =>
      refine ⟨_, ?_, (List.append_nil (callWords id _)).symm ▸ hcall⟩
      simp
    | basic type =>
      have htype : Spelled limits type.name.toList [.typeName type] :=
        (hhead (.typeName type) (List.mem_append_right _ (List.mem_singleton_self _))).spelled
      refine ⟨_, ?_, hcall.append_space htype⟩
      simp

/-- A newline is read as the end of a line, whatever follows. -/
theorem spells_endOfLine {rest : List Char} : Spells limits ['\n'] .endOfLine rest where
  starts := ⟨'\n', [], rfl, by decide⟩
  ne_end := by simp
  kept := fun _ => rfl
  reads := fun position => ⟨position.after '\n', rfl⟩

/-- A line end in front of a text is a word of its own. -/
theorem Spelled.cons_line {text : List Char} {words : List Lexeme}
    (h : Spelled limits text words) : Spelled limits ('\n' :: text) (.endOfLine :: words) := by
  intro rest hrest
  rw [List.cons_append, ← List.singleton_append]
  exact .cons spells_endOfLine (h rest hrest)

/-- Functions are printed one below the other, with an empty line between them. -/
theorem print_functions {n : Nat} : ∀ {fs : List Function},
    (∀ f ∈ fs, ∃ ts, FunctionPhrase (BlockPhrase n) ts f) →
    (∀ f ∈ fs, WritableAll limits f.lines) →
    ∃ texts, Printer.functions fs = .ok texts ∧
      SpelledAll limits texts (fs.map Function.lexemes)
  | [], _, _ => ⟨[], rfl, .nil⟩
  | first :: rest, h, hw => by
    obtain ⟨ts, hf⟩ := h first (List.mem_cons_self ..)
    obtain ⟨lines, hprint, hlines⟩ := print_function hf (hw first (List.mem_cons_self ..))
    obtain ⟨texts, hprints, htexts⟩ := print_functions
      (fun f hf => h f (List.mem_cons_of_mem _ hf)) (fun f hf => hw f (List.mem_cons_of_mem _ hf))
    refine ⟨_, by rw [Printer.functions, hprint, hprints]; rfl, .cons ?_ htexts⟩
    exact spelled_intercalate '\n' [] [.endOfLine] (by decide) rfl
      (fun _ _ hspelled => hspelled.cons_line) hlines

/-- **A program whose words can be written has a text, and the text is made of its lexemes.** -/
theorem print_program {n : Nat} {ts : List Lookahead} {p : Program}
    (hp : ProgramPhrase n ts p) (hw : ∀ f ∈ p.functions, WritableAll limits f.lines) :
    ∃ text, Printer.program p = .ok text ∧ Segments limits text.toList p.lexemes [] := by
  obtain ⟨texts, hprint, htexts⟩ := print_functions hp.mem hw
  refine ⟨_, by rw [Printer.program, hprint]; rfl, ?_⟩
  have hspelled : Spelled limits (String.intercalate "\n\n" texts).toList _ :=
    spelled_intercalate '\n' ['\n'] [.endOfLine, .endOfLine] (by decide) rfl
      (fun _ _ hspelled => hspelled.cons_line.cons_line) htexts
  rw [String.toList_append]
  exact (hspelled _ (separates_cons (by decide))).append (.cons spells_endOfLine .nil)

end FLang
