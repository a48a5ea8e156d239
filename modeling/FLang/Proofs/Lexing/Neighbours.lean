import Mathlib.Data.List.DropRight
import FLang.Proofs.Lexing.LongestMatch

/-!
# What stands around a name

An editor takes letters, numerals and underscores together for one word. In a text that splits into
tokens, what follows a name is never part of the same word (`Splits.stops_word`). In front of it a
word can only go on through a number that touches the name: then its last digits and the name are
one word (`Splits.around_name`).

`Meets` says how a lexeme touches what follows it. It holds before the first token and is kept from
one token to the next (`Meets.step`).
-/

namespace FLang

open Lexer
open Text (isWordPart isNamePart)

variable {limits : Limits}

/-! ## Word characters -/

/-- No code point lies in two tables whose ranges are apart. -/
theorem inRanges_eq_false_of_apart {ranges others : List (Nat × Nat)}
    (h : ∀ r ∈ ranges, ∀ s ∈ others, r.2 < s.1 ∨ s.2 < r.1) {n : Nat}
    (hn : Text.inRanges ranges n = true) : Text.inRanges others n = false := by
  obtain ⟨r, hr, hin⟩ := List.any_eq_true.1 hn
  refine List.any_eq_false.2 fun s hs hin' => ?_
  simp only [Bool.and_eq_true, decide_eq_true_eq] at hin hin'
  have := h r hr s hs
  omega

/-- No blank is a numeral. -/
theorem numeralRanges_not_space {c : Char} (h : Text.isSpace c = true) :
    Text.inRanges Text.numeralRanges c.toNat = false := by
  have hspace : Text.inRanges ((9, 13) :: (0x1C, 0x20) :: Text.blankRanges) c.toNat = true := by
    simpa [Text.isSpace, Text.inRanges, or_assoc] using h
  exact inRanges_eq_false_of_apart (by decide +kernel) hspace

/-- A blank separates words. -/
theorem isWordPart_of_isBlank {c : Char} (h : isBlank c = true) : isWordPart c = false := by
  have hletter : Text.isLetter c = false := by
    by_contra hc
    rw [isBlank_of_isLetter (Bool.not_eq_false _ ▸ hc)] at h
    cases h
  have hdigit : c.isDigit = false := by
    by_contra hc
    rw [isBlank_of_isDigit (Bool.not_eq_false _ ▸ hc)] at h
    cases h
  have hnumeral := numeralRanges_not_space (Bool.and_eq_true_iff.1 h).2
  have hunderscore : c ≠ '_' := by
    rintro rfl
    revert h
    decide
  simp [isWordPart, hletter, hdigit, hnumeral, hunderscore]

theorem isWordPart_of_mem_markChars {c : Char} (h : c ∈ markChars) : isWordPart c = false := by
  have hall : (markChars.all fun c => !isWordPart c) = true := by decide +kernel
  simpa using List.all_eq_true.1 hall c h

theorem isWordPart_of_isDigit {c : Char} (h : c.isDigit = true) : isWordPart c = true := by
  simp [isWordPart, h]

/-- A lexeme that starts with a word character starts with a letter or with a digit. -/
theorem Lexical.first_namePart {text : List Char} {l : Lexeme} {continues : Char → Bool}
    (h : Lexical limits text l continues) {c : Char} (hc : text.head? = some c)
    (hword : isWordPart c = true) : isNamePart c = true := by
  have hmark : c ∉ markChars := by
    intro hmem
    rw [isWordPart_of_mem_markChars hmem] at hword
    cases hword
  have hdigit (hd : c.isDigit = true) : isNamePart c = true := by simp [isNamePart, hd]
  cases h with
  | newline =>
    obtain rfl := Option.some.inj hc
    exact absurd (by decide) hmark
  | comment _ =>
    obtain rfl := Option.some.inj hc
    exact absurd (by decide) hmark
  | string _ _ =>
    obtain rfl := Option.some.inj hc
    exact absurd (by decide) hmark
  | pair hpair =>
    obtain rfl := Option.some.inj hc
    exact absurd (first_of_ofPair? hpair).1 hmark
  | single hsingle =>
    obtain rfl := Option.some.inj hc
    exact absurd (mem_markChars_of_startsSymbol (by simp [startsSymbol, hsingle])) hmark
  | int _ hrun => exact hdigit (hrun.digits c (List.mem_of_mem_head? hc))
  | float hne hwhole _ =>
    rw [List.head?_append_of_ne_nil _ hne] at hc
    exact hdigit (hwhole.digits c (List.mem_of_mem_head? hc))
  | word hword' => exact hword'.parts c (List.mem_of_mem_head? hc)

/-- A name is written as it is. -/
theorem Lexical.name {text rest : List Char} {name : String} {continues : Char → Bool}
    (h : Lexical limits text (.identifier name) continues) (hstops : Stops continues rest) :
    text = name.toList ∧ IsWord limits name.toList ∧ Stops isNamePart rest := by
  generalize hl : Lexeme.identifier name = l at h
  cases h with
  | pair hpair =>
    subst hl
    cases isSymbol_of_ofPair? hpair
  | single hsingle =>
    subst hl
    cases isSymbol_of_ofChar? hsingle
  | @word text hword =>
    have htext : name.toList = text.toList := by
      rw [← Lexeme.spelling_ofWord text, ← hl]
      rfl
    exact ⟨htext.symm, htext ▸ hword, hstops⟩
  | _ => cases hl

/-- **What follows a name is not part of its word.** -/
theorem Splits.stops_word {before rest : List Char} {tokens : List Token}
    (h : Splits limits before rest tokens) (hstops : Stops isNamePart rest) :
    Stops isWordPart rest := by
  intro c hc
  cases h with
  | finish hgap => exact isWordPart_of_isBlank (hgap c (List.mem_of_mem_head? hc))
  | @token _ gap text rest l continues tokens hgap hlexical _ _ =>
    cases gap with
    | cons d gap =>
      obtain rfl : d = c := Option.some.inj hc
      exact isWordPart_of_isBlank (hgap d (List.mem_cons_self ..))
    | nil =>
      obtain ⟨d, text', rfl, -⟩ := hlexical.starts
      obtain rfl : d = c := Option.some.inj hc
      by_contra hword
      have hpart := hlexical.first_namePart rfl (Bool.not_eq_false _ ▸ hword)
      rw [hstops d hc] at hpart
      cases hpart

/-! ## How lexemes touch -/

/-- A number. -/
def Lexeme.isNumber : Lexeme → Bool
  | .constant (.int _) => true
  | .constant (.float _) => true
  | _ => false

/-- The word characters at the end of a text. -/
def wordEnd (before : List Char) : List Char :=
  before.rtakeWhile isWordPart

theorem wordEnd_append {run : List Char} (h : ∀ c ∈ run, isWordPart c = true)
    (before : List Char) : wordEnd (before ++ run) = wordEnd before ++ run := by
  rw [wordEnd, List.rtakeWhile, List.reverse_append,
    List.takeWhile_append_of_pos (by simpa using h), List.reverse_append, List.reverse_reverse]
  rfl

theorem wordEnd_of_getLast {c : Char} (before : List Char) (h : isWordPart c = false) :
    wordEnd (before ++ [c]) = [] :=
  List.rtakeWhile_concat_neg _ _ _ (by simp [h])

/-- How the text `before`, whose last lexeme is `last`, goes on with `rest`. -/
inductive Meets (before : List Char) (last : Option Lexeme) (rest : List Char) : Prop where
  /-- It does not end with a word. -/
  | apart (h : wordEnd before = [])
  /-- It ends with a number, and its last digits are not part of a longer word. -/
  | number {l : Lexeme} (hlast : last = some l) (hl : l.isNumber = true)
      (hdigits : ∀ c ∈ wordEnd before, c.isDigit = true) (hrest : Stops Char.isDigit rest)
  /-- No name and no number comes next. -/
  | name (hrest : Stops isNamePart rest)

namespace Meets

variable {before gap text rest : List Char} {last : Option Lexeme} {c : Char}

/-- What stands in front of a name or of a number that comes next. -/
theorem wordEnd_gap (h : Meets before last (gap ++ text)) (hgap : IsGap gap)
    (hc : text.head? = some c) (hpart : isNamePart c = true) :
    wordEnd (before ++ gap) = [] ∨
      c.isDigit = false ∧ (∃ l, last = some l ∧ l.isNumber = true) ∧
        ∀ d ∈ wordEnd (before ++ gap), d.isDigit = true := by
  rcases List.eq_nil_or_concat gap with rfl | ⟨gap, d, rfl⟩
  · rw [List.append_nil]
    cases h with
    | apart h => exact .inl h
    | @number l hlast hl hdigits hrest => exact .inr ⟨hrest c hc, ⟨l, hlast, hl⟩, hdigits⟩
    | name hrest =>
      rw [hrest c hc] at hpart
      cases hpart
  · have hd : isBlank d = true := hgap d (by simp)
    rw [List.concat_eq_append, ← List.append_assoc]
    exact .inl (wordEnd_of_getLast _ (isWordPart_of_isBlank hd))

/-- **Lexemes touch in the same ways from one token to the next.** -/
theorem step {l : Lexeme} {continues : Char → Bool} (h : Meets before last (gap ++ text ++ rest))
    (hgap : IsGap gap) (hlexical : Lexical limits text l continues)
    (hstops : Stops continues rest) : Meets (before ++ gap ++ text) (some l) rest := by
  cases hlexical with
  | newline => exact .apart (wordEnd_of_getLast _ (by decide))
  | comment _ =>
    -- a comment may end with a word, but only a newline can follow it
    refine .name fun c hc => ?_
    obtain rfl : c = '\n' := by simpa using hstops c hc
    decide
  | @string text chars _ _ =>
    rw [← List.append_assoc]
    exact .apart (wordEnd_of_getLast _ (by decide))
  | @pair first second l hpair =>
    have hmark : second ∈ markChars := by
      by_contra hsecond
      rw [ofPair?_eq_none (by rintro rfl; exact hsecond (by decide))
        (by rintro rfl; exact hsecond (by decide))] at hpair
      cases hpair
    rw [← List.singleton_append, ← List.append_assoc]
    exact .apart (wordEnd_of_getLast _ (isWordPart_of_mem_markChars hmark))
  | @single c l hsingle =>
    have hmark : c ∈ markChars :=
      mem_markChars_of_startsSymbol (by simp [startsSymbol, hsingle])
    exact .apart (wordEnd_of_getLast _ (isWordPart_of_mem_markChars hmark))
  | int hne hrun =>
    obtain ⟨d, run, rfl⟩ := List.exists_cons_of_ne_nil hne
    have hd := hrun.digits d (List.mem_cons_self ..)
    have hfront : wordEnd (before ++ gap) = [] := by
      rw [List.append_assoc] at h
      refine (h.wordEnd_gap hgap rfl (by simp [isNamePart, hd])).resolve_right fun hnumber => ?_
      rw [hd] at hnumber
      cases hnumber.1
    refine .number rfl rfl ?_ fun c hc => (Bool.or_eq_false_iff.1 (hstops c hc)).1
    rw [wordEnd_append fun c hc => isWordPart_of_isDigit (hrun.digits c hc), hfront]
    exact hrun.digits
  | @float whole fraction _ _ hfraction =>
    refine .number rfl rfl ?_ hstops
    have hpoint : wordEnd (before ++ gap ++ whole ++ ['.']) = [] := wordEnd_of_getLast _ (by decide)
    rw [← List.singleton_append, ← List.append_assoc, ← List.append_assoc,
      wordEnd_append fun c hc => isWordPart_of_isDigit (hfraction.digits c hc), hpoint]
    exact hfraction.digits
  | word _ => exact .name hstops

end Meets

/-- **What stands around a name.** Behind it its word ends. In front of it the word goes on only
through digits, and only if the token before it is a number. -/
theorem Splits.around_name {before rest : List Char} {tokens : List Token} {last : Option Lexeme}
    (h : Splits limits before rest tokens) (hmeets : Meets before last rest)
    {earlier later : List Token} {token : Token} {name : String}
    (htokens : tokens = earlier ++ token :: later) (hname : token.lexeme = .identifier name) :
    ∃ skipped more, rest = skipped ++ name.toList ++ more ∧
      token.position = .behind (before ++ skipped) ∧ IsWord limits name.toList ∧
      Stops isWordPart more ∧ (∀ c ∈ wordEnd (before ++ skipped), c.isDigit = true) ∧
      (wordEnd (before ++ skipped) ≠ [] →
        ∃ l, (earlier.getLast?.map Token.lexeme).or last = some l ∧ l.isNumber = true) := by
  induction h generalizing last earlier with
  | @finish before gap _ =>
    have htoken : token ∈ [⟨.endOfInput, .behind (before ++ gap)⟩] := by simp [htokens]
    rw [List.mem_singleton.1 htoken] at hname
    cases hname
  | @token before gap text rest l continues tokens hgap hlexical hstops hrest ih =>
    cases earlier with
    | nil =>
      obtain ⟨rfl, rfl⟩ := List.cons.inj htokens
      obtain rfl : l = .identifier name := hname
      obtain ⟨rfl, hword, hstops⟩ := hlexical.name hstops
      obtain ⟨c, text', htext, hc⟩ := hword.first
      rw [List.append_assoc] at hmeets
      -- a gap in front of the name ends the word before it; without one, the word before it goes
      -- on, and can only be a number
      have hfront := hmeets.wordEnd_gap hgap (by rw [htext]; rfl) (by simp [isNamePart, hc])
      refine ⟨gap, rest, rfl, rfl, hword, hrest.stops_word hstops, ?_, fun hne => ?_⟩
      · rcases hfront with hnone | ⟨-, -, hdigits⟩
        · simp [hnone]
        · exact hdigits
      · exact (hfront.resolve_left hne).2.1
    | cons first earlier =>
      obtain ⟨rfl, rfl⟩ := List.cons.inj htokens
      obtain ⟨skipped, more, rfl, hposition, hword, hmore, hdigits, hnumber⟩ :=
        -- what meets at the next token is known from this one
        ih (hmeets.step hgap hlexical hstops) rfl
      simp only [List.append_assoc] at hposition hdigits hnumber ⊢
      refine ⟨gap ++ (text ++ skipped), more, by simp, hposition, hword, hmore, hdigits,
        fun hne => ?_⟩
      obtain ⟨l', hl', hl''⟩ := hnumber hne
      refine ⟨l', ?_, hl''⟩
      rw [List.getLast?_cons]
      cases hlast : earlier.getLast? with
      | none => simpa [hlast] using hl'
      | some t => simpa [hlast] using hl'

end FLang
