import FLang.Proofs.Canonical.Printing
import FLang.Proofs.Canonical.Source
import FLang.Proofs.Canonical.Layout
import FLang.Proofs.Language

/-!
# Reading what was printed

A program that was read is printed as a text that reads as the same program, positions apart.

* `lexed_of_mem_sentence` and `functions_carry`: the words of the program stood in its source, so
  that each has a spelling within the limits;
* `print_program` and `tokenStream_of_segments`: the printed text has these words for its tokens;
* `sentence_marks`: without the ends of lines they are laid out in the lines of the program;
* `functions_of_lines` and `parseTokens_of_phrase`: laid out like this they derive the program, and
  the parser finds what they derive.

The text of an operation has parentheses that the source need not have had. So it can be nested
deeper than the parser allows, which is then the diagnostic.
-/

namespace FLang

open Grammar FLang.Parser

/-! ## The lines of a list of lexemes -/

/-- What is significant among some lexemes, each with whether a line has ended before it. -/
def visible : Bool → List Lexeme → List (Lexeme × Bool)
  | _, [] => []
  | newline, l :: rest =>
    match l with
    | .endOfLine => visible true rest
    | .comment _ => visible newline rest
    | l => (l, newline) :: visible false rest

theorem significant_marks (newline : Bool) (tokens : List Token) :
    (significant newline tokens).map Lookahead.mark =
      visible newline (tokens.map Token.lexeme) := by
  induction tokens generalizing newline with
  | nil => rfl
  | cons token rest ih =>
    obtain ⟨l, position⟩ := token
    cases l with
    | endOfLine => exact ih true
    | comment _ => exact ih newline
    | _ => exact congrArg _ (ih false)

theorem visible_cons {l : Lexeme} (h : l.isTrivia = false) (newline : Bool) (rest : List Lexeme) :
    visible newline (l :: rest) = (l, newline) :: visible false rest := by
  cases l <;> first | rfl | cases h

theorem visible_words {words : List Lexeme} (h : ∀ l ∈ words, l.isTrivia = false)
    (rest : List Lexeme) :
    visible false (words ++ rest) = words.map (fun l => (l, false)) ++ visible false rest := by
  induction words with
  | nil => rfl
  | cons l words ih =>
    rw [List.forall_mem_cons] at h
    rw [List.cons_append, visible_cons h.1, ih h.2]
    rfl

theorem visible_line {line : List Lexeme} (h : ∀ l ∈ line, l.isTrivia = false)
    (rest : List Lexeme) :
    visible true (line ++ .endOfLine :: rest) = markLine line ++ visible true rest := by
  cases line with
  | nil => rfl
  | cons l words =>
    rw [List.forall_mem_cons] at h
    rw [List.cons_append, visible_cons h.1, visible_words h.2]
    rfl

theorem visible_lines {lines : List (List Lexeme)}
    (h : ∀ line ∈ lines, ∀ l ∈ line, l.isTrivia = false) (rest : List Lexeme) :
    visible true (List.intercalate [.endOfLine] lines ++ .endOfLine :: rest) =
      layout lines ++ visible true rest := by
  induction lines with
  | nil => rfl
  | cons line lines ih =>
    rw [List.forall_mem_cons] at h
    cases lines with
    | nil => rw [List.intercalate_singleton, visible_line h.1, layout_singleton]
    | cons second lines =>
      rw [List.intercalate_cons_cons, List.append_assoc, List.append_assoc,
        List.singleton_append, visible_line h.1, ih h.2, ← List.append_assoc, ← layout_cons]

/-- Without the ends of lines a program is its functions, one after the other. -/
theorem visible_functions {fs : List Function}
    (h : ∀ f ∈ fs, ∀ line ∈ f.lines, ∀ l ∈ line, l.isTrivia = false) :
    visible true (List.intercalate [.endOfLine, .endOfLine] (fs.map Function.lexemes) ++
      [.endOfLine]) = fs.flatMap fun f => layout f.lines := by
  induction fs with
  | nil => rfl
  | cons f fs ih =>
    rw [List.forall_mem_cons] at h
    cases fs with
    | nil =>
      rw [List.map_singleton, List.intercalate_singleton, Function.lexemes, visible_lines h.1]
      rfl
    | cons g fs =>
      rw [List.map_cons, List.map_cons, List.intercalate_cons_cons, List.append_assoc,
        List.append_assoc, List.cons_append, Function.lexemes, visible_lines h.1,
        List.flatMap_cons, ← ih h.2]
      rfl

/-! ## Significant tokens -/

theorem significant_append_end (newline : Bool) (tokens : List Token) (last : Position) :
    ∃ flag, significant newline (tokens ++ [⟨.endOfInput, last⟩]) =
      significant newline tokens ++ [⟨⟨.endOfInput, last⟩, flag⟩] := by
  induction tokens generalizing newline with
  | nil => exact ⟨newline, rfl⟩
  | cons token rest ih =>
    rw [List.cons_append]
    unfold significant
    split
    · exact ih true
    · exact ih newline
    · obtain ⟨flag, heq⟩ := ih false
      exact ⟨flag, congrArg _ heq⟩

/-- The tokens before the end of the input are the sentence. -/
theorem sentence_append_end {tokens : List Token} (h : ∀ t ∈ tokens, t.lexeme ≠ .endOfInput)
    (last : Position) : sentence (tokens ++ [⟨.endOfInput, last⟩]) = significant false tokens := by
  obtain ⟨flag, heq⟩ := significant_append_end false tokens last
  have hne : ∀ t ∈ significant false tokens, decide (t.lexeme ≠ .endOfInput) = true :=
    fun t ht => decide_eq_true (h _ (mem_significant ht).1)
  rw [sentence, heq, List.takeWhile_append_of_pos hne, List.takeWhile_cons_of_neg (by simp),
    List.append_nil]

/-- Whether a line has ended before some tokens shows in the first of them only. -/
theorem significant_flag (newline newline' : Bool) (tokens : List Token) :
    (significant newline tokens = [] ∧ significant newline' tokens = []) ∨
      ∃ token flag flag' rest, significant newline tokens = ⟨token, flag⟩ :: rest ∧
        significant newline' tokens = ⟨token, flag'⟩ :: rest := by
  induction tokens generalizing newline newline' with
  | nil => exact .inl ⟨rfl, rfl⟩
  | cons token rest ih =>
    unfold significant
    split
    · exact ih true true
    · exact ih newline newline'
    · exact .inr ⟨token, newline, newline', _, rfl, rfl⟩

/-- The first function may begin anywhere on its line. -/
theorem functionList_flag {B : Phrase Block} {token : Token} {flag flag' : Bool}
    {rest : List Lookahead} {fs : List Function}
    (h : FunctionList B (⟨token, flag⟩ :: rest) fs) :
    FunctionList B (⟨token, flag'⟩ :: rest) fs := by
  generalize hts : (⟨token, flag⟩ : Lookahead) :: rest = ts at h
  cases h with
  | nil => cases hts
  | cons hf hfs =>
    obtain ⟨hname, hleft, hps, hright, htype, hbody⟩ := hf
    obtain ⟨rfl, rfl⟩ := List.cons.inj hts
    have hname : (⟨token, flag'⟩ : Lookahead).lexeme = .identifier _ := hname
    exact .cons (.intro hname hleft hps hright htype hbody) hfs

theorem functionList_significant {B : Phrase Block} {newline newline' : Bool}
    {tokens : List Token} {fs : List Function}
    (h : FunctionList B (significant newline tokens) fs) :
    FunctionList B (significant newline' tokens) fs := by
  rcases significant_flag newline newline' tokens with ⟨hs, hs'⟩ | ⟨t, flag, flag', rest, hs, hs'⟩
  · rwa [hs', ← hs]
  · rw [hs] at h
    rw [hs']
    exact functionList_flag h

/-! ## The source of a program -/

variable {limits : Limits}

/-- What the parser can still read at the start of a stream are significant tokens of it. -/
theorem mem_upcoming {stream : TokenStream} {r : Reader} (h : Reader.ofStream stream = .ok r)
    {t : Lookahead} (ht : t ∈ r.upcoming) :
    t ∈ significant false stream.tokens ∧ t.lexeme ≠ .endOfInput := by
  have hne : t.lexeme ≠ .endOfInput := by simpa using List.mem_takeWhile_imp ht
  refine ⟨?_, hne⟩
  have hmem := (List.takeWhile_sublist _).mem ht
  unfold Reader.ofStream at h
  split at h
  · next first rest hs =>
    obtain rfl := Except.ok.inj h
    rwa [hs]
  · cases h
  · obtain rfl := Except.ok.inj h
    rw [List.mem_singleton] at hmem
    exact absurd (hmem ▸ rfl) hne

/-- A program that was read is derived by tokens of its source. -/
theorem derived_from_tokens {source : String} {program : Program}
    (h : parse limits source = .ok program) :
    ∃ ts, ProgramPhrase limits.nestingLimit ts program ∧
      (program.functions.map Function.name).Nodup ∧
      ∀ t ∈ ts, t.token ∈ (tokenStream limits source).tokens ∧ t.lexeme ≠ .endOfInput ∧
        t.lexeme.isTrivia = false := by
  rw [parse] at h
  obtain ⟨r, hr⟩ : ∃ r, Reader.ofStream (tokenStream limits source) = .ok r := by
    cases hr : Reader.ofStream (tokenStream limits source) with
    | ok r => exact ⟨r, rfl⟩
    | error e =>
      rw [parseTokens, Parse.onStream, hr] at h
      cases h
  rw [parseTokens_eq hr] at h
  obtain ⟨r', h⟩ := map_fst_eq_ok.1 h
  obtain ⟨ts, hts, hend, hfs, hnodup⟩ := programOf_sound (block_sound limits.nestingLimit) h
  refine ⟨ts, hfs, hnodup, fun t ht => ?_⟩
  rw [hts.eq_upcoming hend] at ht
  obtain ⟨hmem, hne⟩ := mem_upcoming hr ht
  obtain ⟨htoken, htrivia⟩ := mem_significant hmem
  exact ⟨htoken, hne, htrivia⟩

/-- These tokens keep to the limits. -/
theorem derived_of_parse {source : String} {program : Program}
    (h : parse limits source = .ok program) :
    ∃ ts, ProgramPhrase limits.nestingLimit ts program ∧
      (program.functions.map Function.name).Nodup ∧
      ∀ t ∈ ts, Lexed limits t.lexeme ∧ t.lexeme.isTrivia = false := by
  obtain ⟨ts, hphrase, hnodup, hts⟩ := derived_from_tokens h
  refine ⟨ts, hphrase, hnodup, fun t ht => ?_⟩
  obtain ⟨htoken, hne, htrivia⟩ := hts t ht
  exact ⟨lexed_of_mem_tokenStreamFrom htoken hne, htrivia⟩

/-- The names of functions are not touched by leaving positions out. -/
theorem names_of_erase {fs fs' : List Function}
    (h : fs'.map Function.erase = fs.map Function.erase) :
    fs'.map Function.name = fs.map Function.name := by
  have hnames := congrArg (List.map Function.name) h
  rwa [List.map_map, List.map_map] at hnames

/-- The words of a program derive it, and the parser finds what they derive. -/
theorem parse_of_segments {program : Program} {depth : Nat} {ts : List Lookahead} {text : String}
    (hphrase : ProgramPhrase depth ts program)
    (hnodup : (program.functions.map Function.name).Nodup)
    (htrivia : ∀ f ∈ program.functions, ∀ line ∈ f.lines, ∀ l ∈ line, l.isTrivia = false)
    (htext : Segments limits text.toList program.lexemes []) :
    (∃ program', parse limits text = .ok program' ∧ program'.erase = program.erase) ∨
      limits.nestingLimit < program.nesting ∧ ∃ position,
        parse limits text = .error (.grammatical position .nestingTooDeep) := by
  obtain ⟨tokens, last, hstream, hlexemes⟩ := tokenStream_of_segments htext
  have hmarks : (significant true tokens).map Lookahead.mark =
      program.functions.flatMap fun f => layout f.lines := by
    rw [significant_marks, hlexemes, Program.lexemes, visible_functions htrivia]
  obtain ⟨fs, herase, hfs⟩ := functions_of_lines (n := program.nesting) hphrase.mem
    (fun f hf => le_deepest (List.mem_map_of_mem hf)) hmarks
  have hsentence : sentence (tokens ++ [⟨.endOfInput, last⟩]) = significant false tokens :=
    sentence_append_end (fun t ht => htext.ne_endOfInput (hlexemes ▸ List.mem_map_of_mem ht)) last
  have hderives : ProgramPhrase program.nesting (sentence (tokens ++ [⟨.endOfInput, last⟩])) ⟨fs⟩ :=
    hsentence ▸ functionList_significant hfs
  have hnodup' : (fs.map Function.name).Nodup := names_of_erase herase ▸ hnodup
  rw [parse, hstream]
  rcases parseTokens_of_phrase limits.nestingLimit hderives hnodup' with hok | hdeep
  · exact .inl ⟨⟨fs⟩, hok, congrArg Program.mk herase⟩
  · exact .inr hdeep

/-- **Printing, then parsing, is the identity on parsed programs, positions aside.** A program that
was read is printed, and its text, read within the same limits, is a program that differs in
positions only, unless the text is nested deeper than these allow. It is assumed that the program's
integers have at most `Decimal.digitLimit` digits and that the text of each of its floats is read as
the float. -/
theorem parse_print_of_parse {source : String} {program : Program}
    (h : parse limits source = .ok program)
    (hint : ∀ n : Nat, .int n ∈ program.constants → Decimal.fits n = true)
    (hfloat : ∀ x, .float x ∈ program.constants → ReadsBack limits x) :
    ∃ text, Printer.program program = .ok text ∧
      ((∃ program', parse limits text = .ok program' ∧ program'.erase = program.erase) ∨
        limits.nestingLimit < program.nesting ∧ ∃ position,
          parse limits text = .error (.grammatical position .nestingTooDeep)) := by
  obtain ⟨ts, hphrase, hnodup, hts⟩ := derived_of_parse h
  have hsymbol : ∀ l : Lexeme, l.isSymbol = true → Lexed limits l ∧ l.isTrivia = false := by
    intro l hl
    refine ⟨.symbol hl, ?_⟩
    cases l <;> first | rfl | cases hl
  have hcarry := functions_carry hsymbol hphrase hts
  have hwords : ∀ f ∈ program.functions, ∀ line ∈ f.lines, ∀ l ∈ line,
      Lexed limits l ∧ l.isTrivia = false := fun f hf line hline l hl =>
    hcarry f hf l (List.mem_flatten_of_mem hline hl)
  -- what the lexer has read can be written, numbers apart: these are the two hypotheses
  have hwritable : ∀ f ∈ program.functions, WritableAll limits f.lines := by
    intro f hf line hline l hl
    obtain ⟨hlexed, htrivia⟩ := hwords f hf line hline l hl
    refine hlexed.writable htrivia ?_ ?_
    · rintro n rfl
      exact hint n (Program.mem_constants hf hline hl)
    · rintro x rfl
      exact hfloat x (Program.mem_constants hf hline hl)
  obtain ⟨text, htext, hsegments⟩ := print_program hphrase hwritable
  exact ⟨text, htext, parse_of_segments hphrase hnodup
    (fun f hf line hline l hl => (hwords f hf line hline l hl).2) hsegments⟩

/-- A text with grouped parameters, a comment, signs, a cast and a choice. -/
def sampleSource : String :=
  "main(a, b int) int \x7b\n  float x := 1.5 # a comment\n" ++
    "  if a >= 2 * 3 + -(4) as int \x7b return -(-b) \x7d\n" ++
    "  switch int k := f(1, \"a\") \x7b > 2 => 3, default => \x7b return 0 \x7d \x7d\n\x7d"

theorem parse_print_of_sampleSource :
    ∃ program text program', parse {} sampleSource = .ok program ∧
      program.constants = [.float 1.5, .int 2, .int 3, .int 4, .int 1, .string "a", .int 2, .int 3,
        .int 0] ∧
      Printer.program program = .ok text ∧ parse {} text = .ok program' ∧
      program'.erase = program.erase := by
  have hsample : ((parse {} sampleSource).map fun program => (program.constants,
      decide (program.nesting ≤ nestingLimit))) = .ok ([.float 1.5, .int 2, .int 3, .int 4, .int 1,
        .string "a", .int 2, .int 3, .int 0], true) := by
    decide +kernel
  have hsmall : ∀ n ≤ 4, Decimal.fits (n : Nat) = true := by decide +kernel
  have hhalf : ReadsBack {} 1.5 := by
    unfold ReadsBack
    decide +kernel
  cases hparse : parse {} sampleSource with
  | error fault =>
    rw [hparse] at hsample
    cases hsample
  | ok program =>
    rw [hparse] at hsample
    obtain ⟨hconstants, hnesting⟩ := Prod.mk.inj (Except.ok.inj hsample)
    obtain ⟨text, htext, hread⟩ := parse_print_of_parse hparse
      (fun n hn => hsmall n (by rw [hconstants] at hn; simp at hn; omega))
      (fun x hx => by
        have hx : x = 1.5 := by simpa [hconstants] using hx
        exact hx ▸ hhalf)
    obtain ⟨program', hok, herase⟩ :=
      hread.resolve_right fun h => Nat.not_lt.2 (of_decide_eq_true hnesting) h.1
    exact ⟨program, text, program', rfl, hconstants, htext, hok, herase⟩

end FLang
