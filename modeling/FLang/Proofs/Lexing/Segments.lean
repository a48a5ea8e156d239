import FLang.Proofs.Decimal.Digits
import FLang.Proofs.Lexing.Spelling

/-!
# Texts made of spellings

In front of a text that does not go on with it, the spelling of a lexeme is read as the lexeme again
(`Writable.spells`). A text that splits into spellings and blanks (`Segments`) is read as the
lexemes that it was split into (`tokenStream_of_segments`).

Everything but a float is writable as soon as the lexer has read it; a float is writable if its own
text is read back (`ReadsBack`).
-/

namespace FLang

open Lexer

variable {limits : Limits}

/-! ## Spellings in a text -/

/-- The characters `text`, in front of `rest`, are read as a lexeme. -/
structure Spells (limits : Limits) (text : List Char) (l : Lexeme) (rest : List Char) : Prop where
  /-- They do not start with a blank. -/
  starts : ∃ c text', text = c :: text' ∧ isBlank c = false
  /-- Something is read. -/
  ne_end : l ≠ .endOfInput
  /-- They are kept as they are when line ends are unified. -/
  kept : ∀ chars, sourceChars (text ++ chars) = text ++ sourceChars chars
  /-- Reading stops in front of what follows them. -/
  reads : ∀ position, ∃ position',
    Lexer.lexeme limits ⟨text ++ rest, position⟩ = (.ok l, ⟨rest, position'⟩)

/-- A text that goes on with no lexeme: it does not start with a part of a name, with a point, or
with the second half of an operator. -/
def Separates (rest : List Char) : Prop :=
  ∀ c, rest.head? = some c → Text.isNamePart c = false ∧ c ≠ '.' ∧ c ≠ '=' ∧ c ≠ '>'

theorem Separates.not_namePart {rest : List Char} (h : Separates rest) :
    ∀ c, rest.head? = some c → Text.isNamePart c = false :=
  fun c hc => (h c hc).1

theorem Separates.not_digit {rest : List Char} (h : Separates rest) :
    ∀ c, rest.head? = some c → c.isDigit = false :=
  fun c hc => (isNamePart_eq_false.1 (h c hc).1).2.1

/-- Without newlines and without a carriage return at its end, a text is kept as it is. -/
theorem sourceChars_append {text : List Char} (hline : '\n' ∉ text)
    (hlast : text.getLast? ≠ some '\r') (chars : List Char) :
    sourceChars (text ++ chars) = text ++ sourceChars chars := by
  induction text with
  | nil => rfl
  | cons c text ih =>
    have hline' : '\n' ∉ text := fun h => hline (List.mem_cons_of_mem c h)
    cases text with
    | nil =>
      have hc : c ≠ '\r' := by simpa using hlast
      rw [List.singleton_append, sourceChars]
      · rfl
      · intro rest hr
        exact absurd hr hc
    | cons d text =>
      have hd : d ≠ '\n' := fun h => hline' (h ▸ List.mem_cons_self ..)
      have ih := ih hline' (by simpa using hlast)
      rw [List.cons_append, sourceChars, ih]
      · rfl
      · intro rest _ hrest
        exact hd (List.cons.inj hrest).1

/-! ### Symbols -/

/-- A symbol of one character is read if what follows does not make it a longer one. -/
theorem Spells.ofChar {c : Char} {l : Lexeme} {rest : List Char}
    (h : Lexeme.ofChar? c = some l)
    (hpair : ∀ d, rest.head? = some d → Lexeme.ofPair? c d = none) :
    Spells limits [c] l rest := by
  have hstart : startsSymbol c = true := by simp [startsSymbol, h]
  have hmark := mem_markChars_of_startsSymbol hstart
  have hne : c ≠ '\n' ∧ c ≠ '#' ∧ c ≠ '"' := by
    refine ⟨?_, ?_, ?_⟩ <;> rintro rfl <;> cases h
  refine ⟨⟨c, [], rfl, (markChars_plain hmark).2⟩, ?_, ?_, fun position => ?_⟩
  · rintro rfl
    cases isSymbol_of_ofChar? h
  · refine sourceChars_append (by simpa using hne.1.symm) ?_
    intro hlast
    obtain rfl : c = '\r' := by simpa using hlast
    cases h
  · have hnone : rest.head?.bind (Lexeme.ofPair? c) = none := by
      rw [Option.bind_eq_none_iff]
      exact fun d hd => hpair d hd
    refine ⟨position.after c, ?_⟩
    simp [Lexer.lexeme, Cursor.current, hne, hstart, Lexer.symbol, Cursor.advance, hnone, h]

/-- A symbol of two characters is read in front of anything. -/
theorem Spells.ofPair {c d : Char} {l : Lexeme} {rest : List Char} (hc : c ∈ markChars)
    (hne : c ≠ '\n' ∧ c ≠ '#' ∧ c ≠ '"') (hstart : startsSymbol c = true)
    (h : Lexeme.ofPair? c d = some l) : Spells limits [c, d] l rest := by
  have hd : d ≠ '\n' ∧ d ≠ '\r' := by
    constructor <;> rintro rfl <;> unfold Lexeme.ofPair? at h <;> split at h <;> simp_all
  refine ⟨⟨c, [d], rfl, (markChars_plain hc).2⟩, ?_, ?_, fun position => ?_⟩
  · rintro rfl
    cases isSymbol_of_ofPair? h
  · refine sourceChars_append ?_ (by simpa using hd.2)
    simpa using ⟨hne.1.symm, hd.1.symm⟩
  · refine ⟨(position.after c).after d, ?_⟩
    simp [Lexer.lexeme, Cursor.current, hne, hstart, Lexer.symbol, Cursor.advance, h]

theorem ofPair?_eq_none {c d : Char} (h : d ≠ '=') (h' : d ≠ '>') : Lexeme.ofPair? c d = none := by
  unfold Lexeme.ofPair?
  split <;> simp_all

/-- A symbol is spelled by one character or by two. -/
theorem Lexeme.spelling_of_isSymbol {l : Lexeme} (h : l.isSymbol = true) :
    (∃ c, l.spelling = [c] ∧ Lexeme.ofChar? c = some l) ∨
      ∃ c d, l.spelling = [c, d] ∧ c ∈ markChars ∧ (c ≠ '\n' ∧ c ≠ '#' ∧ c ≠ '"') ∧
        startsSymbol c = true ∧ Lexeme.ofPair? c d = some l := by
  cases l with
  | operator op =>
    cases op with
    | logical op => cases h
    | relation op =>
      cases op with
      | greater => exact .inl ⟨'>', rfl, rfl⟩
      | less => exact .inl ⟨'<', rfl, rfl⟩
      | equal => exact .inr ⟨'=', '=', rfl, by decide, by decide, rfl, rfl⟩
      | notEqual => exact .inr ⟨'!', '=', rfl, by decide, by decide, rfl, rfl⟩
      | greaterOrEqual => exact .inr ⟨'>', '=', rfl, by decide, by decide, rfl, rfl⟩
      | lessOrEqual => exact .inr ⟨'<', '=', rfl, by decide, by decide, rfl, rfl⟩
    | arithmetic op => cases op <;> exact .inl ⟨_, rfl, rfl⟩
  | negation => exact .inl ⟨'!', rfl, rfl⟩
  | punctuation mark =>
    cases mark with
    | declare => exact .inr ⟨':', '=', rfl, by decide, by decide, rfl, rfl⟩
    | arrow => exact .inr ⟨'=', '>', rfl, by decide, by decide, rfl, rfl⟩
    | _ => exact .inl ⟨_, rfl, rfl⟩
  | _ => cases h

theorem Lexeme.spells_of_isSymbol {l : Lexeme} {rest : List Char} (h : l.isSymbol = true)
    (hrest : Separates rest) : Spells limits l.spelling l rest := by
  rcases Lexeme.spelling_of_isSymbol h with ⟨c, hs, hc⟩ | ⟨c, d, hs, hmark, hne, hstart, hpair⟩
  · rw [hs]
    exact .ofChar hc fun d hd => ofPair?_eq_none (hrest d hd).2.2.1 (hrest d hd).2.2.2
  · rw [hs]
    exact .ofPair hmark hne hstart hpair

/-! ### Words and numbers -/

/-- The first character decides between a number and a word. -/
theorem lexeme_of_namePart {c : Char} {rest : List Char} {position : Position}
    (h : Text.isNamePart c = true) :
    Lexer.lexeme limits ⟨c :: rest, position⟩ =
      if c.isDigit then Lexer.number limits ⟨c :: rest, position⟩
      else if Text.isLetter c then Lexer.word limits ⟨c :: rest, position⟩
      else (.error (.lexical position (.noneTokenMatch c)), ⟨c :: rest, position⟩) := by
  have hmark : c ∉ markChars := fun hm => by
    rw [(markChars_plain hm).1] at h
    cases h
  have hne : c ≠ '\n' ∧ c ≠ '#' ∧ c ≠ '"' := by
    refine ⟨?_, ?_, ?_⟩ <;> rintro rfl <;> exact hmark (by decide)
  have hstart : startsSymbol c = false := by
    by_contra hs
    exact hmark (mem_markChars_of_startsSymbol (Bool.not_eq_false _ ▸ hs))
  simp [Lexer.lexeme, Cursor.current, hne, hstart]

/-- Parts of names are kept as they are. -/
theorem sourceChars_append_nameParts {text : List Char}
    (h : ∀ c ∈ text, Text.isNamePart c = true) (chars : List Char) :
    sourceChars (text ++ chars) = text ++ sourceChars chars := by
  refine sourceChars_append (fun hmem => ?_) (fun hlast => ?_) chars
  · have hpart : Text.isNamePart '\n' = false := by decide
    rw [h _ hmem] at hpart
    cases hpart
  · have hpart : Text.isNamePart '\r' = false := by decide
    rw [h _ (List.mem_of_getLast? hlast)] at hpart
    cases hpart

theorem IsWord.spells {word : String} {rest : List Char} (h : IsWord limits word.toList)
    (hrest : Separates rest) :
    Spells limits (Lexeme.ofWord word).spelling (Lexeme.ofWord word) rest := by
  rw [Lexeme.spelling_ofWord]
  obtain ⟨c, text, htext, hc⟩ := h.first
  refine ⟨⟨c, text, htext, isBlank_of_isLetter hc⟩, (Lexeme.ofWord_ne word).2.2,
    sourceChars_append_nameParts h.parts, fun position => ?_⟩
  obtain ⟨position', hspan⟩ := spanFrom_append h.parts hrest.not_namePart position
  refine ⟨position', ?_⟩
  have hlexeme : Lexer.lexeme limits ⟨word.toList ++ rest, position⟩ =
      Lexer.word limits ⟨word.toList ++ rest, position⟩ := by
    rw [htext, List.cons_append, lexeme_of_namePart (by simp [Text.isNamePart, hc]),
      isDigit_of_isLetter hc, if_neg Bool.false_ne_true, if_pos hc]
  rw [hlexeme]
  simp [Lexer.word, Cursor.span, hspan, Nat.not_lt.2 h.short]

/-- A run of digits in front of a separating text is read as a number. -/
theorem digits_append {limit : Nat} {run rest : List Char} (hrun : ∀ c ∈ run, c.isDigit = true)
    (hle : Nat.ofDigitChars 10 run 0 ≤ limit)
    (hrest : ∀ c, rest.head? = some c → c.isDigit = false) (position : Position) :
    ∃ position', digits limit ⟨run ++ rest, position⟩ =
      (some ⟨Nat.ofDigitChars 10 run 0, run.length⟩, ⟨rest, position'⟩) := by
  obtain ⟨position', h⟩ := digitRun_append hrun hrest position ⟨0, 0⟩ hle
  exact ⟨position', by rw [digits, h, Nat.zero_add]⟩

theorem Lexeme.spells_int {n : Nat} {rest : List Char} (h : n ≤ limits.intLimit)
    (hrest : Separates rest) :
    Spells limits (Lexeme.constant (.int n)).spelling (.constant (.int n)) rest := by
  have hdigits : ∀ c ∈ Decimal.natDigits n, c.isDigit = true := fun c => isDigit_of_mem_natDigits
  have hvalue : Nat.ofDigitChars 10 (Decimal.natDigits n) 0 = n := natOfDigits_natDigits n
  have hparts : ∀ c ∈ Decimal.natDigits n, Text.isNamePart c = true := fun c hc => by
    simp [Text.isNamePart, hdigits c hc]
  obtain ⟨c, text, htext⟩ := List.exists_cons_of_ne_nil (natDigits_ne_nil n)
  have hc : c ∈ Decimal.natDigits n := htext ▸ List.mem_cons_self ..
  rw [Lexeme.spelling]
  refine ⟨⟨c, text, htext, isBlank_of_isDigit (hdigits c hc)⟩, by simp,
    sourceChars_append_nameParts hparts, fun position => ?_⟩
  obtain ⟨position', hread⟩ := digits_append hdigits (hvalue ▸ h) hrest.not_digit position
  refine ⟨position', ?_⟩
  have hlexeme : Lexer.lexeme limits ⟨Decimal.natDigits n ++ rest, position⟩ =
      Lexer.number limits ⟨Decimal.natDigits n ++ rest, position⟩ := by
    rw [htext, List.cons_append, lexeme_of_namePart (hparts c hc), if_pos (hdigits c hc)]
  have hpoint : rest.head? ≠ some '.' := fun hp => (hrest _ hp).2.1 rfl
  rw [hlexeme, Lexer.number, hread, hvalue]
  simp [Cursor.current, hpoint]

/-! ### Strings -/

/-- A character of a string is escaped by a backslash and a letter for it, or stands for itself. -/
theorem escape_cases (c : Char) :
    (∃ d, Printer.escape c = ['\\', d] ∧ d ≠ '\n' ∧ unescape? d = some c) ∨
      (Printer.escape c = [c] ∧ c ≠ '\n' ∧ c ≠ '"' ∧ c ≠ '\\') := by
  unfold Printer.escape
  split
  · exact .inl ⟨'n', rfl, by decide, rfl⟩
  · exact .inl ⟨'t', rfl, by decide, rfl⟩
  · exact .inl ⟨'"', rfl, by decide, rfl⟩
  · exact .inl ⟨'\\', rfl, by decide, rfl⟩
  · next hline _ hquote hslash => exact .inr ⟨rfl, hline, hquote, hslash⟩

/-- The escaped characters of a string, and its closing quote, are read as the string. -/
theorem stringBody_escaped {limit : Nat} {start : Position} (text rest : List Char) :
    ∀ (position : Position) (room : Nat) (read : List Char), text.length ≤ room →
      ∃ position', stringBody limit start (text.flatMap Printer.escape ++ '"' :: rest) position
          room read =
        (.ok (.constant (.string (String.ofList (read.reverse ++ text)))), ⟨rest, position'⟩) := by
  induction text with
  | nil =>
    intro position room read _
    exact ⟨position.after '"', by simp [stringBody]⟩
  | cons c text ih =>
    intro position room read hroom
    obtain ⟨room, rfl⟩ : ∃ n, room = n + 1 := ⟨room - 1, by simp at hroom; omega⟩
    have hroom' : text.length ≤ room := by simpa using hroom
    rcases escape_cases c with ⟨d, hescape, -, hd⟩ | ⟨hescape, hline, hquote, hslash⟩
    · obtain ⟨position', h⟩ := ih ((position.after '\\').after d) room (c :: read) hroom'
      exact ⟨position', by simpa [hescape, stringBody, hd] using h⟩
    · obtain ⟨position', h⟩ := ih (position.after c) room (c :: read) hroom'
      exact ⟨position', by simpa [hescape, hline, hquote, hslash, stringBody] using h⟩

/-- No escaped character is a newline. -/
theorem newline_not_mem_escape (c : Char) : '\n' ∉ Printer.escape c := by
  rcases escape_cases c with ⟨d, hescape, hline, -⟩ | ⟨hescape, hline, -, -⟩
  · rw [hescape]
    simpa using hline.symm
  · rw [hescape]
    simpa using hline.symm

theorem Lexeme.spells_string {text : String} {rest : List Char}
    (h : text.length ≤ limits.stringLimit) :
    Spells limits (Lexeme.constant (.string text)).spelling (.constant (.string text)) rest := by
  rw [Lexeme.spelling, Printer.stringLiteral, String.toList_ofList]
  refine ⟨⟨'"', _, rfl, by decide⟩, by simp, ?_, fun position => ?_⟩
  · refine sourceChars_append ?_ ?_
    · simp [newline_not_mem_escape]
    · rw [List.getLast?_append]
      simp
  · obtain ⟨position', hread⟩ := stringBody_escaped text.toList rest (position.after '"')
      limits.stringLimit [] (by rw [String.length_toList]; exact h)
    refine ⟨position', ?_⟩
    have hread : stringBody limits.stringLimit position
        (text.toList.flatMap Printer.escape ++ '"' :: rest) (position.after '"')
        limits.stringLimit [] = (.ok (.constant (.string text)), ⟨rest, position'⟩) := by
      simpa using hread
    simpa [Lexer.lexeme, Cursor.current, Lexer.string, Cursor.advance] using hread

/-! ### Floats -/

/-- The text of a float is read back as this float and nothing else. -/
def ReadsBack (limits : Limits) (x : Float) : Prop :=
  (tokenize limits (Printer.floatLiteral x)).map (·.map Token.lexeme) =
    .ok [.constant (.float x), .endOfInput]

/-- A character of the text of a float. -/
def isFloatChar (c : Char) : Bool :=
  Text.isNamePart c || c == '.' || c == '-'

theorem isFloatChar_plain {c : Char} (h : isFloatChar c = true) : isBlank c = false ∧ c ≠ '\n' := by
  constructor
  · simp only [isFloatChar, Text.isNamePart, Bool.or_eq_true, beq_iff_eq] at h
    rcases h with (((h | h) | rfl) | rfl) | rfl
    · exact isBlank_of_isLetter h
    · exact isBlank_of_isDigit h
    all_goals decide
  · rintro rfl
    revert h
    decide

theorem isFloatChar_of_isDigit {c : Char} (h : c.isDigit = true) : isFloatChar c = true := by
  simp [isFloatChar, Text.isNamePart, h]

theorem isFloatChar_of_mem_natDigits {n : Nat} {c : Char} (h : c ∈ Decimal.natDigits n) :
    isFloatChar c = true :=
  isFloatChar_of_isDigit (isDigit_of_mem_natDigits h)

theorem isFloatChar_of_mem_pointed {whole fraction : List Char}
    (hw : ∀ c ∈ whole, isFloatChar c = true) (hf : ∀ c ∈ fraction, isFloatChar c = true) :
    ∀ c ∈ Decimal.pointed whole fraction, isFloatChar c = true := by
  intro c hc
  have hzero : isFloatChar '0' = true := by decide
  have hpoint : isFloatChar '.' = true := by decide
  simp only [Decimal.pointed, List.mem_append, List.mem_cons] at hc
  rcases hc with hc | rfl | hc
  · split at hc
    · simp_all
    · exact hw c hc
  · exact hpoint
  · split at hc
    · simp_all
    · exact hf c hc

theorem isFloatChar_of_mem_positional {s : Decimal.Scientific} :
    ∀ c ∈ s.positional, isFloatChar c = true := by
  have hdigits : ∀ c ∈ Decimal.natDigits s.digits, isFloatChar c = true :=
    fun c => isFloatChar_of_mem_natDigits
  have hzeros : ∀ n, ∀ c ∈ List.replicate n '0', isFloatChar c = true := by
    intro n c hc
    rw [List.eq_of_mem_replicate hc]
    decide
  unfold Decimal.Scientific.positional
  simp only
  split
  · refine isFloatChar_of_mem_pointed (fun c hc => ?_) (by simp)
    rcases List.mem_append.1 hc with hc | hc
    · exact hdigits c hc
    · exact hzeros _ c hc
  · split
    · exact isFloatChar_of_mem_pointed (fun c hc => hdigits c (List.mem_of_mem_take hc))
        (fun c hc => hdigits c (List.mem_of_mem_drop hc))
    · refine isFloatChar_of_mem_pointed (by simp) (fun c hc => ?_)
      rcases List.mem_append.1 hc with hc | hc
      · exact hzeros _ c hc
      · exact hdigits c hc

theorem isFloatChar_of_mem_floatLiteral {x : Float} :
    ∀ c ∈ (Printer.floatLiteral x).toList, isFloatChar c = true := by
  have hsign : ∀ {negative : Bool} {text : String}, (∀ c ∈ text.toList, isFloatChar c = true) →
      ∀ c ∈ (if negative then "-" ++ text else text).toList, isFloatChar c = true := by
    intro negative text htext c hc
    split at hc
    · rw [String.toList_append, List.mem_append] at hc
      rcases hc with hc | hc
      · obtain rfl : c = '-' := by simpa using hc
        decide
      · exact htext c hc
    · exact htext c hc
  unfold Printer.floatLiteral Decimal.Layout.write
  simp only
  have hnan : ("NaN.0".toList.all isFloatChar) = true := by decide
  have hinfinity : ("Infinity.0".toList.all isFloatChar) = true := by decide
  split
  · exact List.all_eq_true.1 hnan
  · exact hsign (List.all_eq_true.1 hinfinity)
  · refine hsign fun c hc => ?_
    rw [String.toList_ofList] at hc
    exact isFloatChar_of_mem_positional c hc

/-- The text of a float is kept as it is when line ends are unified. -/
theorem sourceChars_floatLiteral_append (x : Float) (more : List Char) :
    sourceChars ((Printer.floatLiteral x).toList ++ more) =
      (Printer.floatLiteral x).toList ++ sourceChars more := by
  have hplain := fun c hc => isFloatChar_plain (isFloatChar_of_mem_floatLiteral (x := x) c hc)
  refine sourceChars_append (fun hline => (hplain _ hline).2 rfl) (fun hlast => ?_) more
  have hblank : isBlank '\r' = true := by decide
  rw [(hplain _ (List.mem_of_getLast? hlast)).1] at hblank
  cases hblank

/-- A float is a run of digits, a point and another run of digits, wherever it is read. -/
theorem number_float_inv {chars : List Char} {position : Position} {x : Float} {after : Cursor}
    (h : Lexer.number limits ⟨chars, position⟩ = (.ok (.constant (.float x)), after)) :
    ∃ text, chars = text ++ after.rest ∧ ∀ rest, Separates rest → ∀ position, ∃ position',
      Lexer.number limits ⟨text ++ rest, position⟩ =
        (.ok (.constant (.float x)), ⟨rest, position'⟩) := by
  unfold Lexer.number at h
  split at h
  · cases h
  next whole middle hwhole =>
  split at h
  · next hpoint =>
    split at h
    · cases h
    next fraction last hfraction =>
    obtain ⟨hx, rfl⟩ := Prod.mk.inj h
    obtain ⟨run, hchars, hrun, rfl, hle⟩ := digitRun_inv (Nat.zero_le _) hwhole
    obtain ⟨run', hchars', hrun', rfl, hle'⟩ := digitRun_inv (Nat.zero_le _) hfraction
    obtain ⟨middleRest, middlePosition⟩ := middle
    cases middleRest with
    | nil => cases hpoint
    | cons c middleRest =>
      obtain rfl : c = '.' := by simpa [Cursor.current] using hpoint
      -- the point was seen at the cursor in the middle, so what was left there starts with it
      change chars = run ++ '.' :: middleRest at hchars
      change middleRest = _ at hchars'
      refine ⟨run ++ '.' :: run', ?_, fun rest hrest position => ?_⟩
      · rw [hchars, hchars']
        simp
      · have hdot : ∀ c, ('.' :: (run' ++ rest)).head? = some c → c.isDigit = false := by
          intro c hc
          obtain rfl : '.' = c := by simpa using hc
          decide
        obtain ⟨p₁, h₁⟩ := digits_append hrun hle hdot position
        obtain ⟨p₂, h₂⟩ := digits_append hrun' hle' hrest.not_digit (p₁.after '.')
        refine ⟨p₂, ?_⟩
        rw [List.append_assoc, List.cons_append]
        simp only [Lexer.number, h₁, Cursor.current, List.head?_cons, if_true, Cursor.advance, h₂]
        simp only [Nat.zero_add] at hx
        rw [hx]
  · cases h

/-- Only numbers are read as floats. -/
theorem lexeme_float_inv {c : Char} {rest : List Char} {position : Position} {x : Float}
    (h : (Lexer.lexeme limits ⟨c :: rest, position⟩).1 = .ok (.constant (.float x))) :
    c.isDigit = true ∧ Lexer.lexeme limits ⟨c :: rest, position⟩ =
      Lexer.number limits ⟨c :: rest, position⟩ := by
  have hdispatch : c.isDigit = true := by
    unfold Lexer.lexeme at h
    simp only [Cursor.current, List.head?_cons] at h
    split at h
    · cases h
    split at h
    · cases h
    split at h
    · obtain ⟨text, htext, -⟩ := stringBody_length h
      cases htext
    split at h
    · cases isSymbol_of_symbol h
    split at h
    · assumption
    split at h
    · unfold Lexer.word at h
      simp only at h
      split at h
      · cases h
      · exact absurd (Except.ok.inj h) ((Lexeme.ofWord_ne _).1 x)
    · cases h
  refine ⟨hdispatch, ?_⟩
  rw [lexeme_of_namePart (by simp [Text.isNamePart, hdispatch]), if_pos hdispatch]

/-- Where no blank stands, none is skipped. -/
theorem skip_of_not_blank {c : Char} {rest : List Char} (h : isBlank c = false)
    (position : Position) :
    (Cursor.mk (c :: rest) position).skip isBlank = ⟨c :: rest, position⟩ := by
  rw [Cursor.skip, Cursor.span, Cursor.spanFrom, if_neg (by rw [h]; exact Bool.false_ne_true)]

theorem next_of_not_blank {c : Char} {rest : List Char} (h : isBlank c = false)
    (position : Position) :
    Lexer.next limits ⟨c :: rest, position⟩ =
      (((Lexer.lexeme limits ⟨c :: rest, position⟩).1.map fun l => ⟨l, position⟩),
        (Lexer.lexeme limits ⟨c :: rest, position⟩).2) := by
  unfold Lexer.next
  rw [skip_of_not_blank h]

/-- At the end of the input only blanks are left. -/
theorem next_end_inv {c after : Cursor} {position : Position}
    (h : Lexer.next limits c = (.ok ⟨.endOfInput, position⟩, after)) :
    ∀ char ∈ c.rest, isBlank char = true := by
  intro char hchar
  unfold Lexer.next at h
  simp only at h
  obtain ⟨hl, -⟩ := Prod.mk.inj h
  have hrest : (c.skip isBlank).rest = [] := by
    generalize c.skip isBlank = start at hl
    obtain ⟨rest, start⟩ := start
    cases rest with
    | nil => rfl
    | cons d rest =>
      generalize hfound : (Lexer.lexeme limits ⟨d :: rest, start⟩).1 = found at hl
      cases found with
      | error => cases hl
      | ok l =>
        obtain rfl : l = .endOfInput := by
          have := Except.ok.inj hl
          exact congrArg Token.lexeme this
        exact absurd rfl (lexed_of_lexeme hfound).ne_endOfInput
  have hspan := c.span_append_rest isBlank
  rw [show (c.span isBlank).2.rest = [] from hrest, List.append_nil] at hspan
  rw [← hspan] at hchar
  exact mem_spanFrom hchar

/-- The first token of a stream, and the rest of the stream after it. -/
theorem tokenStreamFrom_cons_inv {fuel : Nat} {c : Cursor} {l : Lexeme} {ls : List Lexeme}
    (h : (tokenStreamFrom limits fuel c).tokens.map Token.lexeme = l :: ls) :
    ∃ fuel' token after, fuel = fuel' + 1 ∧ Lexer.next limits c = (.ok token, after) ∧
      token.lexeme = l ∧ (l ≠ .endOfInput →
        (tokenStreamFrom limits fuel' after).tokens.map Token.lexeme = ls) := by
  cases fuel with
  | zero => cases h
  | succ fuel =>
    unfold tokenStreamFrom at h
    split at h
    · cases h
    · next token after hnext =>
      refine ⟨fuel, token, after, rfl, hnext, ?_⟩
      split at h
      · next hend =>
        obtain ⟨rfl, -⟩ := List.cons.inj h
        exact ⟨rfl, fun hne => absurd hend hne⟩
      · obtain ⟨rfl, hls⟩ := List.cons.inj h
        exact ⟨rfl, fun _ => hls⟩

theorem tokenize_eq_ok {text : String} {ls : List Lexeme}
    (h : (tokenize limits text).map (·.map Token.lexeme) = .ok ls) :
    (tokenStream limits text).fault = none ∧
      (tokenStream limits text).tokens.map Token.lexeme = ls := by
  unfold tokenize at h
  simp only at h
  split at h
  · cases h
  · next hfault => exact ⟨hfault, Except.ok.inj h⟩

/-- A text that is read as a float and nothing else starts with a number, and only blanks are left
after it. -/
theorem tokenStreamFrom_float_inv {fuel : Nat} {c : Char} {chars : List Char} {position : Position}
    {x : Float} (hblank : isBlank c = false)
    (h : (tokenStreamFrom limits fuel ⟨c :: chars, position⟩).tokens.map Token.lexeme =
      [.constant (.float x), .endOfInput]) :
    c.isDigit = true ∧ ∃ after, Lexer.number limits ⟨c :: chars, position⟩ =
      (.ok (.constant (.float x)), after) ∧ ∀ d ∈ after.rest, isBlank d = true := by
  obtain ⟨fuel, token, after, -, hnext, htoken, hmore⟩ := tokenStreamFrom_cons_inv h
  obtain ⟨-, ⟨l, last⟩, after', -, hlast, hend, -⟩ := tokenStreamFrom_cons_inv (hmore (by simp))
  obtain rfl : l = .endOfInput := hend
  rw [next_of_not_blank hblank] at hnext
  obtain ⟨hfound, hafter⟩ := Prod.mk.inj hnext
  have hread : (Lexer.lexeme limits ⟨c :: chars, position⟩).1 = .ok (.constant (.float x)) := by
    generalize (Lexer.lexeme limits ⟨c :: chars, position⟩).1 = found at hfound
    cases found with
    | error => cases hfound
    | ok l =>
      obtain rfl := Except.ok.inj hfound
      rw [← htoken]
  obtain ⟨hdigit, hnumber⟩ := lexeme_float_inv hread
  refine ⟨hdigit, after, ?_, next_end_inv hlast⟩
  rw [← hnumber, ← hread, ← hafter]

/-- A float that is read back by itself is read in front of every separating text. -/
theorem ReadsBack.spells {x : Float} {rest : List Char} (h : ReadsBack limits x)
    (hrest : Separates rest) :
    Spells limits (Lexeme.constant (.float x)).spelling (.constant (.float x)) rest := by
  rw [Lexeme.spelling]
  have hplain := fun c hc => isFloatChar_plain (isFloatChar_of_mem_floatLiteral (x := x) c hc)
  have hkept := sourceChars_floatLiteral_append x
  have htokens := (tokenize_eq_ok h).2
  unfold tokenStream Cursor.ofText at htokens
  generalize (Printer.floatLiteral x).toList = chars at hplain hkept htokens ⊢
  have hsource : sourceChars chars = chars := by simpa [sourceChars] using hkept []
  rw [hsource] at htokens
  cases chars with
  | nil => cases htokens
  | cons c chars =>
    have hblank := (hplain c (List.mem_cons_self ..)).1
    obtain ⟨hdigit, after, hnumber, hafter⟩ := tokenStreamFrom_float_inv hblank htokens
    obtain ⟨text, hchars, hagain⟩ := number_float_inv hnumber
    -- nothing is left behind the float: it would be blank
    have hnothing : after.rest = [] := by
      refine List.eq_nil_iff_forall_not_mem.2 fun d hd => ?_
      have hmem : d ∈ c :: chars := by
        rw [hchars]
        exact List.mem_append_right _ hd
      have hd' := hafter d hd
      rw [(hplain d hmem).1] at hd'
      cases hd'
    rw [hnothing, List.append_nil] at hchars
    refine ⟨⟨c, chars, rfl, hblank⟩, by simp, hkept, fun position => ?_⟩
    obtain ⟨position', hnumber'⟩ := hagain rest hrest position
    refine ⟨position', ?_⟩
    rw [List.cons_append, lexeme_of_namePart (by simp [Text.isNamePart, hdigit]), if_pos hdigit,
      ← List.cons_append, hchars, hnumber']

/-! ## Lexemes that can be written -/

/-- A lexeme whose spelling exists and is read as the lexeme. -/
inductive Writable (limits : Limits) : Lexeme → Prop where
  | word {text : String} : IsWord limits text.toList → Writable limits (.ofWord text)
  | int {n : Nat} : n ≤ limits.intLimit → Decimal.fits n = true →
      Writable limits (.constant (.int n))
  | float {x : Float} : ReadsBack limits x → Writable limits (.constant (.float x))
  | string {text : String} :
      text.length ≤ limits.stringLimit → Writable limits (.constant (.string text))
  | symbol {l : Lexeme} : l.isSymbol = true → Writable limits l

/-- **The spelling of a writable lexeme is read as the lexeme**, in front of every text that does
not go on with it. -/
theorem Writable.spells {l : Lexeme} {rest : List Char} (h : Writable limits l)
    (hrest : Separates rest) : Spells limits l.spelling l rest := by
  cases h with
  | word h => exact h.spells hrest
  | int h _ => exact Lexeme.spells_int h hrest
  | float h => exact h.spells hrest
  | string h => exact Lexeme.spells_string h
  | symbol h => exact Lexeme.spells_of_isSymbol h hrest

/-- A writable integer has a text. -/
theorem Writable.fits {l : Lexeme} (h : Writable limits l) {n : Nat}
    (hl : l = .constant (.int n)) : Decimal.fits n = true := by
  cases h with
  | word _ => exact absurd hl ((Lexeme.ofWord_ne _).2.1 n)
  | int _ hfits =>
    cases hl
    exact hfits
  | float _ => cases hl
  | string _ => cases hl
  | symbol hs =>
    subst hl
    cases hs

/-- What was read can be written, except for numbers that have no text. -/
theorem Lexed.writable {l : Lexeme} (h : Lexed limits l) (htrivia : l.isTrivia = false)
    (hint : ∀ n : Nat, l = .constant (.int n) → Decimal.fits n = true)
    (hfloat : ∀ x, l = .constant (.float x) → ReadsBack limits x) : Writable limits l := by
  cases h with
  | word h => exact .word h
  | int h => exact .int h (hint _ rfl)
  | float => exact .float (hfloat _ rfl)
  | string h => exact .string h
  | symbol h => exact .symbol h
  | comment => cases htrivia
  | endOfLine => cases htrivia

/-! ## Segmented texts -/

/-- A text in front of `rest` is made of the spellings of some lexemes, with spaces between them. -/
inductive Segments (limits : Limits) : List Char → List Lexeme → List Char → Prop where
  | nil {rest : List Char} : Segments limits rest [] rest
  | space {chars rest : List Char} {ls : List Lexeme} :
      Segments limits chars ls rest → Segments limits (' ' :: chars) ls rest
  | cons {text chars rest : List Char} {l : Lexeme} {ls : List Lexeme} :
      Spells limits text l chars → Segments limits chars ls rest →
      Segments limits (text ++ chars) (l :: ls) rest

namespace Segments

variable {chars middle rest : List Char} {ls ls' : List Lexeme}

theorem append (h : Segments limits chars ls middle) (h' : Segments limits middle ls' rest) :
    Segments limits chars (ls ++ ls') rest := by
  induction h with
  | nil => exact h'
  | space _ ih => exact .space (ih h')
  | cons hs _ ih => exact .cons hs (ih h')

/-- The end of the input is no part of a text. -/
theorem ne_endOfInput (h : Segments limits chars ls rest) {l : Lexeme} (hl : l ∈ ls) :
    l ≠ .endOfInput := by
  induction h with
  | nil => cases hl
  | space _ ih => exact ih hl
  | cons hs _ ih =>
    rcases List.mem_cons.1 hl with rfl | hl
    · exact hs.ne_end
    · exact ih hl

/-- A segmented text is kept as it is when line ends are unified. -/
theorem sourceChars_eq (h : Segments limits chars ls rest) (hrest : sourceChars rest = rest) :
    sourceChars chars = chars := by
  induction h with
  | nil => exact hrest
  | space _ ih => rw [sourceChars, ih hrest]; simp
  | cons hs _ ih => rw [hs.kept, ih hrest]

/-- A segmented text is read as its lexemes and the end of the input. -/
theorem tokenStreamFrom_eq (h : Segments limits chars ls []) :
    ∀ (fuel : Nat) (position : Position), chars.length < fuel →
      ∃ tokens last, tokenStreamFrom limits fuel ⟨chars, position⟩ =
          ⟨tokens ++ [⟨.endOfInput, last⟩], none⟩ ∧ tokens.map Token.lexeme = ls := by
  generalize hr : ([] : List Char) = rest at h
  induction h with
  | nil =>
    subst hr
    intro fuel position hfuel
    obtain ⟨fuel, rfl⟩ : ∃ n, fuel = n + 1 := ⟨fuel - 1, by omega⟩
    exact ⟨[], position, rfl, rfl⟩
  | space _ ih =>
    intro fuel position hfuel
    -- a space takes no fuel: it is skipped with the next token
    obtain ⟨tokens, last, heq, hls⟩ := ih hr fuel (position.after ' ') (Nat.lt_of_succ_lt hfuel)
    refine ⟨tokens, last, ?_, hls⟩
    rw [← heq]
    obtain ⟨fuel, rfl⟩ : ∃ n, fuel = n + 1 := ⟨fuel - 1, by omega⟩
    rfl
  | @cons text chars rest l ls hs _ ih =>
    intro fuel position hfuel
    obtain ⟨fuel, rfl⟩ : ∃ n, fuel = n + 1 := ⟨fuel - 1, by omega⟩
    obtain ⟨c, text', rfl, hblank⟩ := hs.starts
    obtain ⟨position', hread⟩ := hs.reads position
    obtain ⟨tokens, last, heq, hls⟩ := ih hr fuel position' (by simp at hfuel; omega)
    refine ⟨⟨l, position⟩ :: tokens, last, ?_, by simp [hls]⟩
    rw [List.cons_append] at hread ⊢
    unfold tokenStreamFrom
    rw [next_of_not_blank hblank, hread]
    simp only [Except.map, if_neg hs.ne_end, heq]
    rfl

end Segments

/-- **A segmented text is read as the lexemes that it is made of.** -/
theorem tokenStream_of_segments {text : String} {ls : List Lexeme}
    (h : Segments limits text.toList ls []) :
    ∃ tokens last, tokenStream limits text = ⟨tokens ++ [⟨.endOfInput, last⟩], none⟩ ∧
      tokens.map Token.lexeme = ls := by
  unfold tokenStream Cursor.ofText
  rw [h.sourceChars_eq rfl]
  exact h.tokenStreamFrom_eq _ _ (Nat.lt_succ_self _)

/-- The tokens of a text keep to the limits. -/
theorem lexed_of_mem_tokenStreamFrom {fuel : Nat} {c : Cursor} {token : Token}
    (h : token ∈ (tokenStreamFrom limits fuel c).tokens) (hne : token.lexeme ≠ .endOfInput) :
    Lexed limits token.lexeme := by
  induction fuel generalizing c with
  | zero => cases h
  | succ fuel ih =>
    unfold tokenStreamFrom at h
    split at h
    · cases h
    · next found after hnext =>
      split at h
      · next hend =>
        obtain rfl := List.mem_singleton.1 h
        exact absurd hend hne
      · rcases List.mem_cons.1 h with rfl | h
        · unfold Lexer.next at hnext
          simp only at hnext
          obtain ⟨hfound, -⟩ := Prod.mk.inj hnext
          generalize c.skip isBlank = start at hfound
          obtain ⟨rest, position⟩ := start
          cases rest with
          | nil =>
            obtain rfl := Except.ok.inj hfound
            exact absurd rfl hne
          | cons d rest =>
            generalize hl : (Lexer.lexeme limits ⟨d :: rest, position⟩).1 = l at hfound
            cases l with
            | error => cases hfound
            | ok l =>
              obtain rfl := Except.ok.inj hfound
              exact lexed_of_lexeme hl
        · exact ih h

end FLang
