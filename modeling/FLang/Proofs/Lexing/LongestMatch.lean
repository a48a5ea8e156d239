import FLang.Proofs.Decimal.Range
import FLang.Proofs.Lexing.Cursors
import FLang.Proofs.Lexing.Segments

/-!
# Longest match

The tokens of a text are the only way to split it into lexemes and gaps such that every lexeme is as
long as it can be (`tokenize_longest_match`).

* `Lexical` is the lexical grammar: which characters are which lexeme, and which characters would
  make the lexeme longer;
* `Splits` is a text split into gaps of blanks and maximal lexemes, each token at the position of
  the first character of its lexeme.

Reading is sound (`lexical_of_lexeme`) and complete (`Lexical.lexeme_eq`) for the grammar. That a
text which cannot be split ends in a lexical error needs the range of floats: below `10 ^ 308` no
number is too large for a float (`floatOf_eq`).
-/

namespace FLang

open Lexer

variable {limits : Limits}

/-! ## The lexical grammar -/

/-- The characters between the quotes of a string, and the characters that they denote. -/
inductive Quoted : List Char → List Char → Prop where
  | nil : Quoted [] []
  | plain {c : Char} {text chars : List Char} :
      c ≠ '"' → c ≠ '\\' → Quoted text chars → Quoted (c :: text) (c :: chars)
  | escape {c d : Char} {text chars : List Char} :
      unescape? d = some c → Quoted text chars → Quoted ('\\' :: d :: text) (c :: chars)

/-- A run of digits, possibly empty, whose number is not too large. -/
structure IsDigits (limits : Limits) (run : List Char) : Prop where
  /-- It is made of digits. -/
  digits : ∀ c ∈ run, c.isDigit = true
  /-- Its number is within the limit. -/
  small : Decimal.natOfDigits run ≤ limits.intLimit

/-- The lexical grammar: the characters of a lexeme within the limits, and the characters that would
continue it if they came next. -/
inductive Lexical (limits : Limits) : List Char → Lexeme → (Char → Bool) → Prop where
  | newline : Lexical limits ['\n'] .endOfLine fun _ => false
  | comment {text : List Char} :
      '\n' ∉ text →
      Lexical limits ('#' :: text) (.comment (String.ofList text)) fun c => c ≠ '\n'
  | string {text chars : List Char} :
      Quoted text chars → chars.length ≤ limits.stringLimit →
      Lexical limits ('"' :: text ++ ['"']) (.constant (.string (String.ofList chars)))
        fun _ => false
  | pair {first second : Char} {l : Lexeme} :
      Lexeme.ofPair? first second = some l → Lexical limits [first, second] l fun _ => false
  | single {c : Char} {l : Lexeme} :
      Lexeme.ofChar? c = some l → Lexical limits [c] l fun d => (Lexeme.ofPair? c d).isSome
  | int {run : List Char} :
      run ≠ [] → IsDigits limits run →
      Lexical limits run (.constant (.int (Decimal.natOfDigits run))) fun c => c.isDigit || c = '.'
  | float {whole fraction : List Char} :
      whole ≠ [] → IsDigits limits whole → IsDigits limits fraction →
      Lexical limits (whole ++ '.' :: fraction)
        (.constant (.float
          (Decimal.toFloat ⟨Decimal.natOfDigits (whole ++ fraction), -(fraction.length : Int)⟩)))
        Char.isDigit
  | word {text : String} :
      IsWord limits text.toList → Lexical limits text.toList (.ofWord text) Text.isNamePart

/-- A text does not go on with a character of a class. -/
def Stops (continues : Char → Bool) (rest : List Char) : Prop :=
  ∀ c, rest.head? = some c → continues c = false

/-- A point ends a run of digits. -/
theorem stops_point (rest : List Char) : Stops Char.isDigit ('.' :: rest) := by
  intro c hc
  obtain rfl : '.' = c := by simpa using hc
  decide

/-- Blanks, and no newline among them. -/
def IsGap (gap : List Char) : Prop :=
  ∀ c ∈ gap, isBlank c = true

/-- The text `rest`, behind the characters `before`, is split into gaps and maximal lexemes, which
are some tokens. -/
inductive Splits (limits : Limits) : (before rest : List Char) → List Token → Prop where
  | finish {before gap : List Char} :
      IsGap gap → Splits limits before gap [⟨.endOfInput, .behind (before ++ gap)⟩]
  | token {before gap text rest : List Char} {l : Lexeme} {continues : Char → Bool}
      {tokens : List Token} :
      IsGap gap → Lexical limits text l continues → Stops continues rest →
      Splits limits (before ++ gap ++ text) rest tokens →
      Splits limits before (gap ++ text ++ rest) (⟨l, .behind (before ++ gap)⟩ :: tokens)

/-! ## Numbers -/

/-- The text of a literal has the digits behind the point as they were read. -/
theorem floatText?_eq {fraction : List Char} (whole count : Nat) (hne : fraction ≠ [])
    (hfraction : Decimal.AllDigits fraction) :
    floatText? ⟨whole, count⟩ ⟨Decimal.natOfDigits fraction, fraction.length⟩ =
      if Decimal.fits whole && Decimal.fits (Decimal.natOfDigits fraction) then
        some (String.ofList (Decimal.natDigits whole ++ '.' :: fraction))
      else none := by
  simp only [floatText?, leftpad_natDigits hne hfraction]

/-- The float of a literal with digits behind the point, if both numbers have a text. -/
theorem floatOf_pointed {whole fraction : List Char} (hne : fraction ≠ [])
    (hfraction : Decimal.AllDigits fraction) :
    floatOf ⟨Decimal.natOfDigits whole, whole.length⟩
        ⟨Decimal.natOfDigits fraction, fraction.length⟩ =
      if Decimal.fits (Decimal.natOfDigits whole) &&
          Decimal.fits (Decimal.natOfDigits fraction) then
        .ok (Decimal.toFloat
          ⟨Decimal.natOfDigits (whole ++ fraction), -(fraction.length : Int)⟩)
      else .error (.tooManyDigits none) := by
  have hcount : fraction.length ≠ 0 := fun h => hne (List.eq_nil_of_length_eq_zero h)
  have hwhole : Decimal.AllDigits (Decimal.natDigits (Decimal.natOfDigits whole)) :=
    fun _ => isDigit_of_mem_natDigits
  have hsame : Decimal.natOfDigits (Decimal.natDigits (Decimal.natOfDigits whole) ++ fraction) =
      Decimal.natOfDigits (whole ++ fraction) := by
    rw [natOfDigits_append, natOfDigits_natDigits, natOfDigits_append]
  rw [floatOf, if_neg hcount, floatText?_eq _ _ hne hfraction]
  generalize (Decimal.fits (Decimal.natOfDigits whole) &&
    Decimal.fits (Decimal.natOfDigits fraction)) = fit
  cases fit with
  | false => rfl
  | true =>
    have hread := Decimal.readFloat?_pointed (natDigits_ne_nil _) hwhole hfraction
    simp only [if_true, Option.bind_some, hread, hsame]

/-- The float of a literal is the one nearest to its digits. -/
theorem floatOf_inv {whole fraction : List Char} {x : Float}
    (hfraction : Decimal.AllDigits fraction)
    (h : floatOf ⟨Decimal.natOfDigits whole, whole.length⟩
      ⟨Decimal.natOfDigits fraction, fraction.length⟩ = .ok x) :
    x = Decimal.toFloat
      ⟨Decimal.natOfDigits (whole ++ fraction), -(fraction.length : Int)⟩ := by
  by_cases hnone : fraction = []
  · subst hnone
    have hsign : ¬ (Decimal.natOfDigits whole : Int) < 0 := by omega
    unfold floatOf at h
    simp only [List.length_nil, if_true] at h
    split at h
    · next hsome =>
      obtain rfl := Except.ok.inj h
      simp only [Decimal.intToFloat?, if_neg hsign, Int.natAbs_natCast] at hsome
      split at hsome
      · cases hsome
      · rw [← Option.some.inj hsome, List.append_nil]
        rfl
    · cases h
  · rw [floatOf_pointed hnone hfraction] at h
    split at h
    · exact (Except.ok.inj h).symm
    · cases h

theorem fits_of_lt {n places : Nat} (h : n < 10 ^ places) (hplaces : places ≤ Decimal.digitLimit) :
    Decimal.fits n = true := by
  rw [Decimal.fits, Int.natAbs_natCast, decide_eq_true_eq]
  generalize Decimal.digitLimit = most at hplaces ⊢
  exact h.trans_le (Nat.pow_le_pow_right (by decide) hplaces)

/-- **Within the range of floats, every literal has a float.** -/
theorem floatOf_eq {whole fraction : List Char} (hlimit : limits.intLimit < 10 ^ 308)
    (hwhole : IsDigits limits whole) (hfraction : IsDigits limits fraction) :
    floatOf ⟨Decimal.natOfDigits whole, whole.length⟩
        ⟨Decimal.natOfDigits fraction, fraction.length⟩ =
      .ok (Decimal.toFloat
        ⟨Decimal.natOfDigits (whole ++ fraction), -(fraction.length : Int)⟩) := by
  have hw := hwhole.small.trans_lt hlimit
  have hf := hfraction.small.trans_lt hlimit
  by_cases hnone : fraction = []
  · subst hnone
    unfold floatOf
    simp only [List.length_nil, if_true]
    rw [Decimal.intToFloat?_of_lt hw, List.append_nil]
    rfl
  · rw [floatOf_pointed hnone hfraction.digits, fits_of_lt hw (by decide),
      fits_of_lt hf (by decide)]
    rfl

/-! ## Reading is complete -/

/-- What the first character of a symbol of two characters can be. -/
theorem first_of_ofPair? {first second : Char} {l : Lexeme}
    (h : Lexeme.ofPair? first second = some l) :
    first ∈ markChars ∧ (first ≠ '\n' ∧ first ≠ '#' ∧ first ≠ '"') ∧
      startsSymbol first = true := by
  unfold Lexeme.ofPair? at h
  split at h <;> first | decide | cases h

namespace Lexical

variable {text rest : List Char} {l : Lexeme} {continues : Char → Bool}

/-- A lexeme starts with a character that is no blank. -/
theorem starts (h : Lexical limits text l continues) :
    ∃ c text', text = c :: text' ∧ isBlank c = false := by
  cases h with
  | newline => exact ⟨_, _, rfl, by decide⟩
  | comment _ => exact ⟨_, _, rfl, by decide⟩
  | string _ _ => exact ⟨_, _, rfl, by decide⟩
  | pair h => exact ⟨_, _, rfl, (markChars_plain (first_of_ofPair? h).1).2⟩
  | @single c l h =>
    have hstart : startsSymbol c = true := by simp [startsSymbol, h]
    exact ⟨c, [], rfl, (markChars_plain (mem_markChars_of_startsSymbol hstart)).2⟩
  | int hne hrun =>
    obtain ⟨c, run, rfl⟩ := List.exists_cons_of_ne_nil hne
    exact ⟨c, run, rfl, isBlank_of_isDigit (hrun.digits c (List.mem_cons_self ..))⟩
  | float hne hwhole _ =>
    obtain ⟨c, whole, rfl⟩ := List.exists_cons_of_ne_nil hne
    exact ⟨c, _, rfl, isBlank_of_isDigit (hwhole.digits c (List.mem_cons_self ..))⟩
  | word h =>
    obtain ⟨c, text', htext, hc⟩ := h.first
    exact ⟨c, text', htext, isBlank_of_isLetter hc⟩

/-- The end of the input has no characters. -/
theorem ne_endOfInput (h : Lexical limits text l continues) : l ≠ .endOfInput := by
  cases h with
  | pair h =>
    rintro rfl
    cases isSymbol_of_ofPair? h
  | single h =>
    rintro rfl
    cases isSymbol_of_ofChar? h
  | word _ => exact (Lexeme.ofWord_ne _).2.2
  | _ => simp

end Lexical

/-- The characters of a string up to its closing quote are read as the string. -/
theorem Quoted.stringBody_eq {text chars : List Char} (h : Quoted text chars) (limit : Nat)
    (start : Position) (rest : List Char) (position : Position) (room : Nat) (read : List Char)
    (hroom : chars.length ≤ room) :
    ∃ position', stringBody limit start (text ++ '"' :: rest) position room read =
      (.ok (.constant (.string (String.ofList (read.reverse ++ chars)))), ⟨rest, position'⟩) := by
  induction h generalizing position room read with
  | nil => exact ⟨position.after '"', by simp [stringBody]⟩
  | @plain c text chars hquote hslash _ ih =>
    obtain ⟨room, rfl⟩ : ∃ n, room = n + 1 := ⟨room - 1, by simp at hroom; omega⟩
    obtain ⟨position', h⟩ := ih (position.after c) room (c :: read) (by simpa using hroom)
    exact ⟨position', by simpa [stringBody, hquote, hslash] using h⟩
  | @escape c d text chars hd _ ih =>
    obtain ⟨room, rfl⟩ : ∃ n, room = n + 1 := ⟨room - 1, by simp at hroom; omega⟩
    obtain ⟨position', h⟩ := ih ((position.after '\\').after d) room (c :: read)
      (by simpa using hroom)
    exact ⟨position', by simpa [stringBody, hd] using h⟩

/-- Digits in front of something else are read as their number. -/
theorem IsDigits.digits_eq {run rest : List Char} (h : IsDigits limits run)
    (hrest : Stops Char.isDigit rest) (position : Position) :
    ∃ position', Lexer.digits limits.intLimit ⟨run ++ rest, position⟩ =
      (some ⟨Decimal.natOfDigits run, run.length⟩, ⟨rest, position'⟩) :=
  digits_append h.digits h.small hrest position

/-- A lexeme that starts with a digit is a number. -/
theorem lexeme_digits {run rest : List Char} (h : Decimal.AllDigits run) (hne : run ≠ [])
    (position : Position) :
    Lexer.lexeme limits ⟨run ++ rest, position⟩ = Lexer.number limits ⟨run ++ rest, position⟩ := by
  obtain ⟨c, run, rfl⟩ := List.exists_cons_of_ne_nil hne
  have hc := h c (List.mem_cons_self ..)
  rw [List.cons_append, lexeme_of_namePart (by simp [Text.isNamePart, hc]), if_pos hc]

theorem IsDigits.lexeme_eq {run rest : List Char} (h : IsDigits limits run) (hne : run ≠ [])
    (position : Position) :
    Lexer.lexeme limits ⟨run ++ rest, position⟩ = Lexer.number limits ⟨run ++ rest, position⟩ :=
  lexeme_digits h.digits hne position

theorem IsWord.lexeme_eq {text : String} {rest : List Char} (h : IsWord limits text.toList)
    (hrest : Stops Text.isNamePart rest) (position : Position) :
    ∃ position', Lexer.lexeme limits ⟨text.toList ++ rest, position⟩ =
      (.ok (.ofWord text), ⟨rest, position'⟩) := by
  obtain ⟨c, text', htext, hc⟩ := h.first
  obtain ⟨position', hspan⟩ := spanFrom_append h.parts hrest position
  refine ⟨position', ?_⟩
  have hword : Lexer.lexeme limits ⟨text.toList ++ rest, position⟩ =
      Lexer.word limits ⟨text.toList ++ rest, position⟩ := by
    rw [htext, List.cons_append, lexeme_of_namePart (by simp [Text.isNamePart, hc]),
      isDigit_of_isLetter hc, if_neg Bool.false_ne_true, if_pos hc]
  rw [hword]
  simp [Lexer.word, Cursor.span, hspan, Nat.not_lt.2 h.short]

/-- **A lexeme of the grammar is read** where the text does not continue it. -/
theorem Lexical.lexeme_eq {text rest : List Char} {l : Lexeme} {continues : Char → Bool}
    (hlimit : limits.intLimit < 10 ^ 308) (h : Lexical limits text l continues)
    (hstops : Stops continues rest) (position : Position) :
    ∃ position', Lexer.lexeme limits ⟨text ++ rest, position⟩ = (.ok l, ⟨rest, position'⟩) := by
  cases h with
  | newline => exact ⟨_, rfl⟩
  | @comment text hline =>
    have hrun : ∀ c ∈ text, (decide (c ≠ '\n')) = true := fun c hc =>
      decide_eq_true fun h => hline (h ▸ hc)
    obtain ⟨position', hspan⟩ := spanFrom_append hrun hstops (position.after '#')
    refine ⟨position', ?_⟩
    simp only [Lexer.lexeme, Cursor.current, Lexer.comment, Cursor.advance, Cursor.span,
      List.cons_append, hspan]
    rfl
  | @string text chars hquoted hshort =>
    obtain ⟨position', hread⟩ := hquoted.stringBody_eq limits.stringLimit position rest
      (position.after '"') limits.stringLimit [] hshort
    refine ⟨position', ?_⟩
    simpa [Lexer.lexeme, Cursor.current, Lexer.string, Cursor.advance] using hread
  | pair hpair =>
    obtain ⟨hmark, hne, hstart⟩ := first_of_ofPair? hpair
    exact (Spells.ofPair hmark hne hstart hpair).reads position
  | @single c l hsingle =>
    refine (Spells.ofChar hsingle fun d hd => ?_).reads position
    simpa using hstops d hd
  | @int run hne hrun =>
    have hdigit : Stops Char.isDigit rest := fun c hc => by
      simpa using (Bool.or_eq_false_iff.1 (hstops c hc)).1
    -- a point would continue the number, even if no digit followed it
    have hpoint : rest.head? ≠ some '.' := fun hp => by
      simpa using hstops '.' hp
    obtain ⟨position', hread⟩ := hrun.digits_eq hdigit position
    refine ⟨position', ?_⟩
    rw [hrun.lexeme_eq hne, Lexer.number, hread]
    simp [Cursor.current, hpoint]
  | @float whole fraction hne hwhole hfraction =>
    -- the digits in front of the point stop at the point, those behind it where the lexeme does
    obtain ⟨middle, hread⟩ := hwhole.digits_eq (stops_point (fraction ++ rest)) position
    obtain ⟨position', hread'⟩ := hfraction.digits_eq hstops (middle.after '.')
    refine ⟨position', ?_⟩
    rw [List.append_assoc, List.cons_append, hwhole.lexeme_eq hne]
    simp only [Lexer.number, hread, Cursor.current, List.head?_cons, if_true, Cursor.advance,
      hread', floatOf_eq hlimit hwhole hfraction]
    rfl
  | word hword => exact hword.lexeme_eq hstops position

/-! ## Reading is sound -/

/-- A character that is neither the last backslash nor one with an escape sequence is none. -/
theorem ne_backslash {c : Char} {rest : List Char} (hend : c = '\\' → rest = [] → False)
    (hescape : ∀ d rest', c = '\\' → rest = d :: rest' → False) : c ≠ '\\' := by
  intro hc
  cases rest with
  | nil => exact hend hc rfl
  | cons d rest => exact hescape d rest hc rfl

/-- A string that is read ends at the first quote that is not escaped. -/
theorem quoted_of_stringBody {limit : Nat} {start : Position} {chars read : List Char}
    {position : Position} {room : Nat} {l : Lexeme} {after : Cursor}
    (h : stringBody limit start chars position room read = (.ok l, after)) :
    ∃ text found, chars = text ++ '"' :: after.rest ∧ Quoted text found ∧
      found.length ≤ room ∧
      l = .constant (.string (String.ofList (read.reverse ++ found))) := by
  fun_induction stringBody limit start chars position room read with
  | case1 => cases h
  -- only the closing quote, escape sequences and plain characters lead to a string
  | case2 rest position room read =>
    obtain ⟨hl, rfl⟩ := Prod.mk.inj h
    obtain rfl := Except.ok.inj hl
    exact ⟨[], [], rfl, .nil, Nat.zero_le _, by simp⟩
  | case3 => cases h
  | case4 => cases h
  | case5 => cases h
  | case6 escape rest position read _ char room hescape ih =>
    obtain ⟨text, found, hchars, hquoted, hroom, rfl⟩ := ih h
    refine ⟨'\\' :: escape :: text, char :: found, ?_, .escape hescape hquoted, ?_, ?_⟩
    · rw [hchars]
      rfl
    · simpa using hroom
    · simp
  | case7 => cases h
  | case8 char rest position room read hquote hend hslash ih =>
    obtain ⟨text, found, hchars, hquoted, hroom, rfl⟩ := ih h
    refine ⟨char :: text, char :: found, ?_,
      .plain hquote (ne_backslash hend hslash) hquoted, ?_, ?_⟩
    · rw [hchars]
      rfl
    · simpa using hroom
    · simp

/-- Digits that are read are a run of digits, up to something else. -/
theorem isDigits_of_digits {c after : Cursor} {found : Digits}
    (h : Lexer.digits limits.intLimit c = (some found, after)) :
    ∃ run, c.rest = run ++ after.rest ∧ IsDigits limits run ∧ Stops Char.isDigit after.rest ∧
      found = ⟨Decimal.natOfDigits run, run.length⟩ := by
  obtain ⟨run, hrest, hrun, rfl, hsmall⟩ := digitRun_inv (Nat.zero_le _) h
  exact ⟨run, hrest, ⟨hrun, hsmall⟩, fun c hc => head_digitRun h hc, by simp; rfl⟩

theorem lexical_of_symbol {first : Char} {rest : List Char} {position : Position} {l : Lexeme}
    {after : Cursor} (h : Lexer.symbol first ⟨first :: rest, position⟩ = (.ok l, after)) :
    ∃ text continues, first :: rest = text ++ after.rest ∧ Lexical limits text l continues ∧
      Stops continues after.rest := by
  unfold Lexer.symbol at h
  split at h
  · next hpair =>
    obtain ⟨hl, rfl⟩ := Prod.mk.inj h
    obtain rfl := Except.ok.inj hl
    obtain ⟨second, hsecond, hpair⟩ := Option.bind_eq_some_iff.1 hpair
    obtain ⟨rest, rfl⟩ : ∃ more, rest = second :: more := by
      cases rest with
      | nil => cases hsecond
      | cons d rest => exact ⟨rest, by simpa [Cursor.current, Cursor.advance] using hsecond⟩
    exact ⟨[first, second], _, rfl, .pair hpair, fun _ _ => rfl⟩
  · next hpair =>
    split at h
    · next hsingle =>
      obtain ⟨hl, rfl⟩ := Prod.mk.inj h
      obtain rfl := Except.ok.inj hl
      refine ⟨[first], _, rfl, .single hsingle, fun d hd => ?_⟩
      have hnone := Option.bind_eq_none_iff.1 hpair d hd
      simp [hnone]
    · cases h

theorem lexical_of_number {c after : Cursor} {l : Lexeme}
    (hfirst : ∃ d, c.rest.head? = some d ∧ d.isDigit = true)
    (h : Lexer.number limits c = (.ok l, after)) :
    ∃ text continues, c.rest = text ++ after.rest ∧ Lexical limits text l continues ∧
      Stops continues after.rest := by
  unfold Lexer.number at h
  split at h
  · cases h
  next whole middle hwhole =>
  obtain ⟨run, hrest, hrun, hstops, rfl⟩ := isDigits_of_digits hwhole
  -- the number starts with a digit, which the run would have taken
  have hne : run ≠ [] := by
    rintro rfl
    obtain ⟨d, hd, hdigit⟩ := hfirst
    rw [hrest] at hd
    rw [hstops d hd] at hdigit
    cases hdigit
  split at h
  · next hpoint =>
    split at h
    · cases h
    next fraction last hfraction =>
    obtain ⟨run', hrest', hrun', hstops', rfl⟩ := isDigits_of_digits hfraction
    obtain ⟨hl, rfl⟩ := Prod.mk.inj h
    generalize hfloat : floatOf _ _ = result at hl
    cases result with
    | error => cases hl
    | ok x =>
    obtain rfl := floatOf_inv hrun'.digits hfloat
    obtain rfl := Except.ok.inj hl
    refine ⟨run ++ '.' :: run', _, ?_, .float hne hrun hrun', hstops'⟩
    rw [hrest, List.append_assoc, List.cons_append, ← hrest', Cursor.rest_of_current hpoint]
  · next hpoint =>
    obtain ⟨hl, rfl⟩ := Prod.mk.inj h
    obtain rfl := Except.ok.inj hl
    refine ⟨run, _, hrest, .int hne hrun, fun d hd => ?_⟩
    have hd' : d ≠ '.' := by
      rintro rfl
      exact hpoint hd
    simp [hstops d hd, hd']

theorem lexical_of_word {c : Char} {rest : List Char} {position : Position} {l : Lexeme}
    {after : Cursor} (hc : Text.isLetter c = true)
    (h : Lexer.word limits ⟨c :: rest, position⟩ = (.ok l, after)) :
    ∃ text continues, c :: rest = text ++ after.rest ∧ Lexical limits text l continues ∧
      Stops continues after.rest := by
  have hpart : Text.isNamePart c = true := by simp [Text.isNamePart, hc]
  have hspan := Cursor.span_append_rest Text.isNamePart ⟨c :: rest, position⟩
  unfold Lexer.word at h
  simp only at h
  split at h
  · cases h
  next hlen =>
  obtain ⟨hl, rfl⟩ := Prod.mk.inj h
  obtain rfl := Except.ok.inj hl
  have hword : IsWord limits
      (String.ofList (Cursor.span Text.isNamePart ⟨c :: rest, position⟩).1).toList := by
    rw [String.toList_ofList]
    refine ⟨?_, fun d hd => mem_spanFrom hd, Nat.not_lt.1 hlen⟩
    rw [Cursor.span, Cursor.spanFrom, if_pos hpart]
    exact ⟨c, _, rfl, hc⟩
  refine ⟨_, _, ?_, .word hword, fun d hd => Cursor.head_spanFrom hd⟩
  rw [String.toList_ofList, hspan]

/-- **What is read as a lexeme is one of the grammar**, and the text does not continue it. -/
theorem lexical_of_lexeme {c : Char} {rest : List Char} {position : Position} {l : Lexeme}
    {after : Cursor} (h : Lexer.lexeme limits ⟨c :: rest, position⟩ = (.ok l, after)) :
    ∃ text continues, c :: rest = text ++ after.rest ∧ Lexical limits text l continues ∧
      Stops continues after.rest := by
  unfold Lexer.lexeme at h
  simp only [Cursor.current, List.head?_cons] at h
  -- the branches are those of the lexer, by the first character
  split at h
  · next hc =>
    subst hc
    obtain ⟨hl, rfl⟩ := Prod.mk.inj h
    obtain rfl := Except.ok.inj hl
    exact ⟨['\n'], _, rfl, .newline, fun _ _ => rfl⟩
  split at h
  · next hc =>
    subst hc
    obtain ⟨hl, rfl⟩ := Prod.mk.inj h
    obtain rfl := Except.ok.inj hl
    refine ⟨'#' :: _, _, ?_, .comment ?_, fun d hd => Cursor.head_spanFrom hd⟩
    · rw [List.cons_append]
      exact congrArg _ (Cursor.span_append_rest _ ⟨rest, position.after '#'⟩).symm
    · intro hline
      simpa using mem_spanFrom hline
  split at h
  · next hc =>
    subst hc
    obtain ⟨text, found, hrest, hquoted, hroom, rfl⟩ := quoted_of_stringBody h
    refine ⟨'"' :: text ++ ['"'], _, ?_, .string hquoted hroom, fun _ _ => rfl⟩
    rw [List.append_assoc, List.cons_append]
    exact congrArg _ hrest
  split at h
  · exact lexical_of_symbol h
  split at h
  · next hc => exact lexical_of_number ⟨c, rfl, hc⟩ h
  split at h
  · next hc => exact lexical_of_word hc h
  · cases h

/-! ## Failures -/

/-- A lexical error. -/
def Fault.IsLexical (fault : Fault) : Prop :=
  ∃ position cause, fault = .lexical position cause

theorem isLexical_of_stringBody {limit : Nat} {start : Position} {chars read : List Char}
    {position : Position} {room : Nat} {fault : Fault}
    (h : (stringBody limit start chars position room read).1 = .error fault) :
    fault.IsLexical := by
  fun_induction stringBody limit start chars position room read with
  | case2 => cases h
  | case6 _ _ _ _ _ _ _ _ ih => exact ih h
  | case8 _ _ _ _ _ _ _ _ ih => exact ih h
  | _ => exact ⟨_, _, (Except.error.inj h).symm⟩

theorem isLexical_of_symbol {first : Char} {c : Cursor} {fault : Fault}
    (h : (Lexer.symbol first c).1 = .error fault) : fault.IsLexical := by
  unfold Lexer.symbol at h
  split at h
  · cases h
  split at h
  · cases h
  · exact ⟨_, _, (Except.error.inj h).symm⟩

/-- A text begins with a literal whose digits are within the limit, and which has no float for this
reason. -/
def Unfloated (limits : Limits) (text : List Char) (fault : Fault) : Prop :=
  ∃ whole fraction rest, text = whole ++ '.' :: (fraction ++ rest) ∧
    IsDigits limits whole ∧ IsDigits limits fraction ∧
    floatOf ⟨Decimal.natOfDigits whole, whole.length⟩
      ⟨Decimal.natOfDigits fraction, fraction.length⟩ = .error fault

theorem Unfloated.le_intLimit {text : List Char} {fault : Fault} (h : Unfloated limits text fault) :
    10 ^ 308 ≤ limits.intLimit := by
  obtain ⟨whole, fraction, -, -, hwhole, hfraction, hfloat⟩ := h
  refine Nat.le_of_not_lt fun hlimit => ?_
  rw [floatOf_eq hlimit hwhole hfraction] at hfloat
  cases hfloat

theorem number_fault {c : Cursor} {fault : Fault} (h : (Lexer.number limits c).1 = .error fault) :
    fault.IsLexical ∨ Unfloated limits c.rest fault := by
  rw [Lexer.number] at h
  split at h
  · exact .inl ⟨_, _, (Except.error.inj h).symm⟩
  next whole middle hwhole =>
  obtain ⟨run, hrest, hrun, -, rfl⟩ := isDigits_of_digits hwhole
  split at h
  · next hpoint =>
    split at h
    · exact .inl ⟨_, _, (Except.error.inj h).symm⟩
    next fraction last hfraction =>
    obtain ⟨run', hrest', hrun', -, rfl⟩ := isDigits_of_digits hfraction
    refine .inr ⟨run, run', last.rest, ?_, hrun, hrun', ?_⟩
    · rw [hrest, ← hrest', Cursor.rest_of_current hpoint]
    · generalize floatOf _ _ = result at h ⊢
      cases result with
      | error found => exact congrArg _ (Except.error.inj h)
      | ok x => cases h
  · cases h

theorem lexeme_fault {c : Cursor} {fault : Fault} (h : (Lexer.lexeme limits c).1 = .error fault) :
    fault.IsLexical ∨ Unfloated limits c.rest fault := by
  rw [Lexer.lexeme] at h
  split at h
  · cases h
  split at h
  · cases h
  split at h
  · cases h
  split at h
  · exact .inl (isLexical_of_stringBody h)
  split at h
  · exact .inl (isLexical_of_symbol h)
  split at h
  · exact number_fault h
  split at h
  · unfold Lexer.word at h
    simp only at h
    split at h
    · exact .inl ⟨_, _, (Except.error.inj h).symm⟩
    · cases h
  · exact .inl ⟨_, _, (Except.error.inj h).symm⟩

theorem next_eq_error {c after : Cursor} {fault : Fault} :
    Lexer.next limits c = (.error fault, after) ↔
      Lexer.lexeme limits (c.skip isBlank) = (.error fault, after) := by
  unfold Lexer.next
  simp only
  generalize Lexer.lexeme limits (c.skip isBlank) = read
  obtain ⟨result, after'⟩ := read
  cases result <;> simp [Except.map]

theorem next_eq_ok {c after : Cursor} {token : Token} :
    Lexer.next limits c = (.ok token, after) ↔
      Lexer.lexeme limits (c.skip isBlank) = (.ok token.lexeme, after) ∧
        token.position = (c.skip isBlank).position := by
  unfold Lexer.next
  simp only
  generalize Lexer.lexeme limits (c.skip isBlank) = read
  obtain ⟨result, after'⟩ := read
  obtain ⟨l, position⟩ := token
  cases result with
  | error => simp [Except.map]
  | ok found =>
    simp only [Except.map, Prod.mk.injEq, Except.ok.injEq, Token.mk.injEq]
    tauto

/-- **Reading tokens stops with a lexical error, or at a literal that has no float.** -/
theorem tokenStreamFrom_fault {fuel : Nat} {c : Cursor} {fault : Fault}
    (h : (tokenStreamFrom limits fuel c).fault = some fault) :
    fault.IsLexical ∨ ∃ text, text <:+ c.rest ∧ Unfloated limits text fault := by
  induction fuel generalizing c with
  | zero => cases h
  | succ fuel ih =>
    rw [tokenStreamFrom] at h
    split at h
    · next found after hnext =>
      obtain rfl := Option.some.inj h
      have hfound := congrArg Prod.fst (next_eq_error.1 hnext)
      exact (lexeme_fault hfound).imp_right fun h => ⟨_, (ahead_skip c).suffix, h⟩
    · next token after hnext =>
      split at h
      · cases h
      · have hahead := ahead_lexeme limits (c.skip isBlank)
        rw [(next_eq_ok.1 hnext).1] at hahead
        rcases ih h with hlexical | ⟨text, hsuffix, htext⟩
        · exact .inl hlexical
        · exact .inr ⟨text, hsuffix.trans ((ahead_skip c).trans hahead).suffix, htext⟩

/-- **Within the range of floats, only lexical errors stop the reading of tokens.** -/
theorem isLexical_of_tokenStreamFrom {fuel : Nat} {c : Cursor} {fault : Fault}
    (hlimit : limits.intLimit < 10 ^ 308)
    (h : (tokenStreamFrom limits fuel c).fault = some fault) : fault.IsLexical := by
  rcases tokenStreamFrom_fault h with hlexical | ⟨text, -, htext⟩
  · exact hlexical
  · exact absurd hlimit (Nat.not_lt.2 htext.le_intLimit)

/-! ## Tokens and lexemes -/

/-- Skipping blanks passes a gap and stops at something else. -/
theorem skip_inv (c : Cursor) :
    ∃ gap, IsGap gap ∧ c.Passes gap (c.skip isBlank) ∧ Stops isBlank (c.skip isBlank).rest :=
  ⟨(c.span isBlank).1, fun _ hd => mem_spanFrom hd,
    (ahead_skip c).passes (c.span_append_rest isBlank).symm,
    fun _ hd => Cursor.head_spanFrom hd⟩

/-- A gap in front of something else is skipped. -/
theorem IsGap.skip_eq {gap rest : List Char} (h : IsGap gap) (hrest : Stops isBlank rest)
    (before : List Char) :
    (Cursor.mk (gap ++ rest) (.behind before)).skip isBlank = ⟨rest, .behind (before ++ gap)⟩ := by
  obtain ⟨position, hspan⟩ := spanFrom_append h hrest (.behind before)
  have hskip : (Cursor.mk (gap ++ rest) (.behind before)).skip isBlank = ⟨rest, position⟩ :=
    congrArg Prod.snd hspan
  have hahead := ahead_skip ⟨gap ++ rest, .behind before⟩
  rw [hskip] at hahead ⊢
  rw [← (hahead.passes rfl).position before rfl]

/-- The characters of a token stand in the text. -/
theorem lexical_of_mem_tokenStreamFrom {fuel : Nat} {c : Cursor} {token : Token}
    (h : token ∈ (tokenStreamFrom limits fuel c).tokens) (hne : token.lexeme ≠ .endOfInput) :
    ∃ text continues, text <:+: c.rest ∧ Lexical limits text token.lexeme continues := by
  induction fuel generalizing c with
  | zero => cases h
  | succ fuel ih =>
    rw [tokenStreamFrom] at h
    split at h
    · cases h
    next found after hnext =>
    split at h
    · next hend =>
      obtain rfl := List.mem_singleton.1 h
      exact absurd hend hne
    next hinner =>
    obtain ⟨hlexeme, -⟩ := next_eq_ok.1 hnext
    have hskip := (ahead_skip c).suffix.isInfix
    generalize c.skip isBlank = start at hlexeme hskip
    obtain ⟨rest, position⟩ := start
    cases rest with
    | nil => exact absurd (Except.ok.inj (Prod.mk.inj hlexeme).1).symm hinner
    | cons d rest =>
      obtain ⟨text, continues, hrest, hlexical, -⟩ := lexical_of_lexeme hlexeme
      rcases List.mem_cons.1 h with rfl | h
      · exact ⟨text, continues, .trans ⟨[], after.rest, hrest.symm⟩ hskip, hlexical⟩
      · obtain ⟨text', continues', htext', hlexical'⟩ := ih h
        have hafter : after.rest <:+: d :: rest := ⟨text, [], by simpa using hrest.symm⟩
        exact ⟨text', continues', (htext'.trans hafter).trans hskip, hlexical'⟩

/-- **The tokens of a text split it.** -/
theorem splits_of_tokenStreamFrom {fuel : Nat} {c : Cursor} {before : List Char}
    {tokens : List Token} (hfuel : c.rest.length < fuel) (hc : c.position = .behind before)
    (h : tokenStreamFrom limits fuel c = ⟨tokens, none⟩) :
    Splits limits before c.rest tokens := by
  induction fuel generalizing c before tokens with
  | zero => cases hfuel
  | succ fuel ih =>
    unfold tokenStreamFrom at h
    split at h
    · cases h
    next token after hnext =>
    obtain ⟨hlexeme, hposition⟩ := next_eq_ok.1 hnext
    obtain ⟨gap, hgap, hpasses, -⟩ := skip_inv c
    obtain ⟨l, position⟩ := token
    obtain rfl : position = .behind (before ++ gap) :=
      hposition.trans (hpasses.position before hc)
    generalize hstart : c.skip isBlank = start at hlexeme hpasses
    obtain ⟨rest, position⟩ := start
    cases rest with
    | nil =>
      obtain ⟨hl, -⟩ := Prod.mk.inj hlexeme
      obtain rfl : Lexeme.endOfInput = l := Except.ok.inj hl
      rw [if_pos rfl] at h
      obtain ⟨rfl, -⟩ := TokenStream.mk.inj h
      rw [hpasses.rest, List.append_nil]
      exact .finish hgap
    | cons d rest =>
      obtain ⟨text, continues, hrest, hlexical, hstops⟩ := lexical_of_lexeme hlexeme
      have hahead := ahead_lexeme limits ⟨d :: rest, position⟩
      rw [hlexeme] at hahead
      have htext : Cursor.Passes ⟨d :: rest, position⟩ text after := hahead.passes hrest
      rw [if_neg hlexical.ne_endOfInput] at h
      obtain ⟨rfl, hfault⟩ := TokenStream.mk.inj h
      obtain ⟨e, text', rfl, -⟩ := hlexical.starts
      -- every lexeme has a character, so that the fuel suffices for what remains
      have hlength : c.rest.length = gap.length + (text'.length + 1 + after.rest.length) := by
        rw [hpasses.rest, htext.rest]
        simp
        omega
      rw [hpasses.rest, htext.rest, ← List.append_assoc]
      refine .token hgap hlexical hstops (ih (by omega) ?_ ?_)
      · exact htext.position _ (hpasses.position before hc)
      · rw [← hfault]

/-- **A text that is split is read as the tokens that it was split into.** -/
theorem Splits.tokenStreamFrom_eq (hlimit : limits.intLimit < 10 ^ 308) {before rest : List Char}
    {tokens : List Token} (h : Splits limits before rest tokens) :
    ∀ fuel, rest.length < fuel →
      tokenStreamFrom limits fuel ⟨rest, .behind before⟩ = ⟨tokens, none⟩ := by
  induction h with
  | @finish before gap hgap =>
    intro fuel hfuel
    obtain ⟨fuel, rfl⟩ : ∃ n, fuel = n + 1 := ⟨fuel - 1, by omega⟩
    have hnil : Stops isBlank [] := fun _ hd => by cases hd
    have hskip := hgap.skip_eq hnil before
    rw [List.append_nil] at hskip
    have hnext : Lexer.next limits ⟨gap, .behind before⟩ =
        (.ok ⟨.endOfInput, .behind (before ++ gap)⟩, ⟨[], .behind (before ++ gap)⟩) := by
      rw [next_eq_ok, hskip]
      exact ⟨rfl, rfl⟩
    simp only [tokenStreamFrom, hnext, if_true]
  | @token before gap text rest l continues tokens hgap hlexical hstops _ ih =>
    intro fuel hfuel
    obtain ⟨fuel, rfl⟩ : ∃ n, fuel = n + 1 := ⟨fuel - 1, by omega⟩
    obtain ⟨c, text', rfl, hblank⟩ := hlexical.starts
    -- the gap ends where the lexeme begins, since no lexeme begins with a blank
    have hstop : Stops isBlank (c :: text' ++ rest) := fun d hd => by
      obtain rfl : c = d := by simpa using hd
      exact hblank
    have hskip := hgap.skip_eq hstop before
    obtain ⟨position, hread⟩ := hlexical.lexeme_eq hlimit hstops (.behind (before ++ gap))
    have hahead := ahead_lexeme limits ⟨c :: text' ++ rest, .behind (before ++ gap)⟩
    rw [hread] at hahead
    obtain rfl := (hahead.passes rfl).position _ rfl
    have hnext : Lexer.next limits ⟨gap ++ (c :: text') ++ rest, .behind before⟩ =
        (.ok ⟨l, .behind (before ++ gap)⟩, ⟨rest, .behind (before ++ gap ++ c :: text')⟩) := by
      rw [next_eq_ok, List.append_assoc, hskip]
      exact ⟨hread, rfl⟩
    have hlength : rest.length < fuel := by
      simp at hfuel
      omega
    simp only [tokenStreamFrom, hnext, if_neg hlexical.ne_endOfInput, ih fuel hlength]

/-- The tokens of a split text stand behind what comes before it, and each behind the one before. -/
theorem Splits.positions {before rest : List Char} {tokens : List Token}
    (h : Splits limits before rest tokens) :
    (tokens.map Token.position).Pairwise Position.Before ∧
      ∀ token ∈ tokens, token.position = .behind before ∨
        Position.Before (.behind before) token.position := by
  have hgap : ∀ before gap : List Char, Position.behind (before ++ gap) = .behind before ∨
      Position.Before (.behind before) (.behind (before ++ gap)) := by
    intro before gap
    by_cases hg : gap = []
    · exact .inl (by rw [hg, List.append_nil])
    · exact .inr (Position.behind_before before hg)
  induction h with
  | @finish before gap _ =>
    refine ⟨by simp, fun token htoken => ?_⟩
    obtain rfl := List.mem_singleton.1 htoken
    exact hgap before gap
  | @token before gap text rest l continues tokens _ hlexical _ _ ih =>
    obtain ⟨hsorted, hbehind⟩ := ih
    obtain ⟨c, text', rfl, -⟩ := hlexical.starts
    have hfirst :
        Position.Before (.behind (before ++ gap)) (.behind (before ++ gap ++ c :: text')) :=
      Position.behind_before _ (by simp)
    -- later tokens stand behind this lexeme, which has characters; gaps may be empty
    have hlater : ∀ token ∈ tokens, Position.Before (.behind (before ++ gap)) token.position := by
      intro token htoken
      rcases hbehind token htoken with heq | hlt
      · rw [heq]
        exact hfirst
      · exact hfirst.trans hlt
    refine ⟨?_, fun token htoken => ?_⟩
    · rw [List.map_cons, List.pairwise_cons]
      exact ⟨by simpa using hlater, hsorted⟩
    · rcases List.mem_cons.1 htoken with rfl | htoken
      · exact hgap before gap
      · rcases hgap before gap with heq | hlt
        · exact .inr (heq ▸ hlater token htoken)
        · exact .inr (hlt.trans (hlater token htoken))

/-- **The lexer computes the longest-match segmentation.** Its tokens are the only way to split the
text, with unified line ends, into gaps and maximal lexemes; their positions increase; and a text
that cannot be split is a lexical error. -/
theorem tokenize_longest_match (limits : Limits) (source : String)
    (hlimit : limits.intLimit < 10 ^ 308) :
    (∀ tokens, tokenize limits source = .ok tokens ↔
        Splits limits [] (sourceChars source.toList) tokens) ∧
      (∀ tokens, Splits limits [] (sourceChars source.toList) tokens →
        (tokens.map Token.position).Pairwise Position.Before) ∧
      ((¬ ∃ tokens, Splits limits [] (sourceChars source.toList) tokens) →
        ∃ position cause, tokenize limits source = .error (.lexical position cause)) := by
  have hiff : ∀ tokens, tokenize limits source = .ok tokens ↔
      Splits limits [] (sourceChars source.toList) tokens := by
    intro tokens
    constructor
    · intro h
      refine splits_of_tokenStreamFrom (c := .ofText source) (Nat.lt_succ_self _) rfl ?_
      unfold tokenize at h
      simp only at h
      split at h
      · cases h
      · next hfault =>
        obtain rfl := Except.ok.inj h
        rw [← hfault]
        rfl
    · intro h
      have heq := h.tokenStreamFrom_eq hlimit _ (Nat.lt_succ_self _)
      have hstream : tokenStream limits source = ⟨tokens, none⟩ := heq
      simp [tokenize, hstream]
  -- a text that cannot be split gives no tokens, and all that is left is an error
  refine ⟨hiff, fun tokens h => h.positions.1, fun hnone => ?_⟩
  unfold tokenize
  simp only
  split
  · next fault hfault =>
    obtain ⟨position, cause, rfl⟩ := isLexical_of_tokenStreamFrom hlimit hfault
    exact ⟨position, cause, rfl⟩
  · next hfault =>
    refine absurd ⟨_, (hiff (tokenStream limits source).tokens).1 ?_⟩ hnone
    simp [tokenize, hfault]

theorem tokenize_longest_match_comparison :
    Limits.intLimit {} < 10 ^ 308 ∧
      Splits {} [] (sourceChars "x1 <=\r\n 10".toList)
        [⟨.identifier "x1", ⟨1, 1⟩⟩, ⟨.operator (.relation .lessOrEqual), ⟨1, 4⟩⟩,
         ⟨.endOfLine, ⟨1, 6⟩⟩, ⟨.constant (.int 10), ⟨2, 2⟩⟩, ⟨.endOfInput, ⟨2, 4⟩⟩] :=
  have hlimit : Limits.intLimit {} < 10 ^ 308 := by decide +kernel
  ⟨hlimit, ((tokenize_longest_match _ _ hlimit).1 _).1 (by decide +kernel)⟩

end FLang
