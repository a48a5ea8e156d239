import Mathlib
import FLang.Token.Lexer
import FLang.Tree.Printer

/-!
# Spellings

Every lexeme has one canonical spelling (`Lexeme.spelling`). What the lexer reads keeps to its
limits (`lexed_of_lexeme`): words and strings are not too long, and numbers not too large.
-/

namespace FLang

open Lexer

/-! ## Classes of characters -/

/-- The characters that start a lexeme that is neither a word nor a number. -/
def markChars : List Char :=
  ['\n', '#', '"', ':', '+', '-', '*', '/', '<', '>', '=', '!', '(', ')', '\x7b', '\x7d', ',']

/-- What starts a symbol is one of the marks. -/
theorem mem_markChars_of_startsSymbol {c : Char} (h : startsSymbol c = true) : c ∈ markChars := by
  rw [startsSymbol, Bool.or_eq_true, decide_eq_true_eq] at h
  rcases h with rfl | h
  · decide
  · unfold Lexeme.ofChar? at h
    split at h <;> first | decide | cases h

/-- Marks are neither parts of names nor blanks. -/
theorem markChars_plain {c : Char} (h : c ∈ markChars) :
    Text.isNamePart c = false ∧ isBlank c = false := by
  have hall : (markChars.all fun c => !Text.isNamePart c && !isBlank c) = true := by decide
  simpa using List.all_eq_true.1 hall c h

theorem isNamePart_eq_false {c : Char} :
    Text.isNamePart c = false ↔ Text.isLetter c = false ∧ c.isDigit = false ∧ c ≠ '_' := by
  simp [Text.isNamePart, and_assoc]

/-- No blank beyond ASCII is a letter. -/
theorem letterRanges_not_blank {n : Nat} (h : Text.inRanges Text.blankRanges n = true) :
    Text.inRanges Text.letterRanges n = false := by
  have hmem : n ∈ [0x85, 0xA0, 0x1680, 0x2000, 0x2001, 0x2002, 0x2003, 0x2004, 0x2005, 0x2006,
      0x2007, 0x2008, 0x2009, 0x200A, 0x2028, 0x2029, 0x202F, 0x205F, 0x3000] := by
    simp only [Text.inRanges, Text.blankRanges, List.any_cons, List.any_nil, Bool.or_eq_true,
      Bool.and_eq_true, decide_eq_true_eq, Bool.false_eq_true, or_false] at h
    simp only [List.mem_cons, List.not_mem_nil, or_false]
    omega
  clear h
  revert n
  decide +kernel

theorem isBlank_of_isLetter {c : Char} (h : Text.isLetter c = true) : isBlank c = false := by
  have hspace : Text.isSpace c = false := by
    unfold Text.isLetter at h
    simp only at h
    split at h
    · next hn =>
      have hcode : (97 ≤ c.toNat ∧ c.toNat ≤ 122) ∨ (65 ≤ c.toNat ∧ c.toNat ≤ 90) := by
        simpa [Char.le_def, UInt32.le_iff_toNat_le] using h
      simp [Text.isSpace, Text.inRanges, Text.blankRanges]
      omega
    · next hn =>
      have hranges : Text.inRanges Text.blankRanges c.toNat = false := by
        by_contra hb
        rw [letterRanges_not_blank (Bool.not_eq_false _ ▸ hb)] at h
        cases h
      simp [Text.isSpace, hranges]
      omega
  rw [isBlank, hspace, Bool.and_false]

theorem isBlank_of_isDigit {c : Char} (h : c.isDigit = true) : isBlank c = false := by
  have hcode : 48 ≤ c.toNat ∧ c.toNat ≤ 57 := by
    simpa [Char.isDigit, UInt32.le_iff_toNat_le] using h
  have hspace : Text.isSpace c = false := by
    simp [Text.isSpace, Text.inRanges, Text.blankRanges]
    omega
  rw [isBlank, hspace, Bool.and_false]

/-- No character is both a letter and a digit. -/
theorem isDigit_of_isLetter {c : Char} (h : Text.isLetter c = true) : c.isDigit = false := by
  by_contra hd
  have hcode : 48 ≤ c.toNat ∧ c.toNat ≤ 57 := by
    simpa [Char.isDigit, UInt32.le_iff_toNat_le] using hd
  unfold Text.isLetter at h
  simp only at h
  rw [if_pos (by omega)] at h
  have hcode' : (97 ≤ c.toNat ∧ c.toNat ≤ 122) ∨ (65 ≤ c.toNat ∧ c.toNat ≤ 90) := by
    simpa [Char.le_def, UInt32.le_iff_toNat_le] using h
  omega

/-! ## Runs of characters -/

/-- A run of characters that satisfy `p` is taken up to the first one that does not. -/
theorem spanFrom_append {p : Char → Bool} {run rest : List Char} (hrun : ∀ c ∈ run, p c = true)
    (hrest : ∀ c, rest.head? = some c → p c = false) (position : Position) :
    ∃ position', Cursor.spanFrom p (run ++ rest) position = (run, ⟨rest, position'⟩) := by
  induction run generalizing position with
  | nil =>
    refine ⟨position, ?_⟩
    cases rest with
    | nil => rfl
    | cons c rest =>
      rw [List.nil_append, Cursor.spanFrom, if_neg (by rw [hrest c rfl]; exact Bool.false_ne_true)]
  | cons c run ih =>
    obtain ⟨position', h⟩ := ih (fun d hd => hrun d (List.mem_cons_of_mem c hd)) (position.after c)
    refine ⟨position', ?_⟩
    rw [List.cons_append, Cursor.spanFrom, if_pos (hrun c (List.mem_cons_self ..)), h]

/-- What is taken as a run satisfies `p`. -/
theorem mem_spanFrom {p : Char → Bool} {chars : List Char} {position : Position} {c : Char}
    (h : c ∈ (Cursor.spanFrom p chars position).1) : p c = true := by
  induction chars generalizing position with
  | nil => cases h
  | cons d chars ih =>
    rw [Cursor.spanFrom] at h
    split at h
    · next hd =>
      rcases List.mem_cons.1 h with rfl | h
      · exact hd
      · exact ih h
    · cases h

/-- More digits make a number no smaller. -/
theorem le_ofDigitChars (run : List Char) (n : Nat) : n ≤ Nat.ofDigitChars 10 run n := by
  induction run generalizing n with
  | nil => exact Nat.le_refl n
  | cons c run ih =>
    rw [Nat.ofDigitChars_cons]
    exact Nat.le_trans (by omega) (ih _)

/-- A run of digits within the limit is read up to the first character that is no digit. -/
theorem digitRun_append {limit : Nat} {run rest : List Char} (hrun : ∀ c ∈ run, c.isDigit = true)
    (hrest : ∀ c, rest.head? = some c → c.isDigit = false) (position : Position) (d : Digits)
    (hle : Nat.ofDigitChars 10 run d.value ≤ limit) :
    ∃ position', digitRun limit (run ++ rest) position d =
      (some ⟨Nat.ofDigitChars 10 run d.value, d.count + run.length⟩, ⟨rest, position'⟩) := by
  induction run generalizing position d with
  | nil =>
    refine ⟨position, ?_⟩
    cases rest with
    | nil => rfl
    | cons c rest =>
      rw [List.nil_append, digitRun, if_neg (by rw [hrest c rfl]; exact Bool.false_ne_true)]
      rfl
  | cons c run ih =>
    rw [Nat.ofDigitChars_cons, Nat.mul_comm] at hle ⊢
    obtain ⟨position', h⟩ := ih (fun e he => hrun e (List.mem_cons_of_mem c he))
      (position.after c) ⟨d.value * 10 + (c.toNat - '0'.toNat), d.count + 1⟩ hle
    refine ⟨position', ?_⟩
    rw [List.cons_append, digitRun, if_pos (hrun c (List.mem_cons_self ..))]
    have hstays := passes_iff.not.2 (Nat.not_lt.2 (Nat.le_trans (le_ofDigitChars run _) hle))
    simp only
    rw [if_neg hstays, h, List.length_cons, Nat.add_assoc, Nat.add_comm 1]

/-- Digits that are read are a run within the limit. -/
theorem digitRun_inv {limit : Nat} {chars : List Char} {position : Position} {d d' : Digits}
    {after : Cursor} (hd : d.value ≤ limit)
    (h : digitRun limit chars position d = (some d', after)) :
    ∃ run, chars = run ++ after.rest ∧ (∀ c ∈ run, c.isDigit = true) ∧
      d' = ⟨Nat.ofDigitChars 10 run d.value, d.count + run.length⟩ ∧ d'.value ≤ limit := by
  induction chars generalizing position d with
  | nil =>
    obtain ⟨hsome, rfl⟩ := Prod.mk.inj h
    obtain rfl := Option.some.inj hsome
    exact ⟨[], rfl, by simp, rfl, hd⟩
  | cons c chars ih =>
    rw [digitRun] at h
    split at h
    · next hc =>
      simp only at h
      split at h
      · cases h
      · next hstays =>
        -- the number with this digit is within the limit, as the induction needs it
        have hle := Nat.not_lt.1 (passes_iff.not.1 hstays)
        obtain ⟨run, rfl, hrun, rfl, hlimit⟩ := ih hle h
        refine ⟨c :: run, rfl, ?_, ?_, hlimit⟩
        · intro e he
          rcases List.mem_cons.1 he with rfl | he
          · exact hc
          · exact hrun e he
        · rw [Nat.ofDigitChars_cons, Nat.mul_comm, List.length_cons]
          simp only [Digits.mk.injEq, true_and]
          omega
    · obtain ⟨hsome, rfl⟩ := Prod.mk.inj h
      obtain rfl := Option.some.inj hsome
      exact ⟨[], rfl, by simp, rfl, hd⟩

/-! ## What the lexer reads -/

/-- The canonical spelling of a lexeme. -/
def Lexeme.spelling : Lexeme → List Char
  | identifier name => name.toList
  | constant (.int value) => Decimal.natDigits value
  | constant (.float value) => (Printer.floatLiteral value).toList
  | constant (.bool value) => if value then "true".toList else "false".toList
  | constant (.string value) => (Printer.stringLiteral value).toList
  | typeName type => type.name.toList
  | operator op => op.symbol.toList
  | negation => ['!']
  | keyword word => word.text.toList
  | punctuation mark => mark.text.toList
  | comment text => '#' :: text.toList
  | endOfLine => ['\n']
  | endOfInput => []

/-- An operator or a mark that is not a word. -/
def Lexeme.isSymbol : Lexeme → Bool
  | operator (.relation _) | operator (.arithmetic _) | negation | punctuation _ => true
  | _ => false

/-- The text of a name or a reserved word that is not too long. -/
structure IsWord (limits : Limits) (text : List Char) : Prop where
  /-- It starts with a letter. -/
  first : ∃ c rest, text = c :: rest ∧ Text.isLetter c = true
  /-- It is made of the characters of names. -/
  parts : ∀ c ∈ text, Text.isNamePart c = true
  /-- It is not longer than names may be. -/
  short : text.length ≤ limits.identifierLimit

/-- What the lexer can read under some limits. -/
inductive Lexed (limits : Limits) : Lexeme → Prop where
  | word {text : String} : IsWord limits text.toList → Lexed limits (.ofWord text)
  | int {n : Nat} : n ≤ limits.intLimit → Lexed limits (.constant (.int n))
  | float {x : Float} : Lexed limits (.constant (.float x))
  | string {text : String} :
      text.length ≤ limits.stringLimit → Lexed limits (.constant (.string text))
  | symbol {l : Lexeme} : l.isSymbol = true → Lexed limits l
  | comment {text : String} : Lexed limits (.comment text)
  | endOfLine : Lexed limits .endOfLine

variable {limits : Limits}

theorem isSymbol_of_ofChar? {c : Char} {l : Lexeme} (h : Lexeme.ofChar? c = some l) :
    l.isSymbol = true := by
  unfold Lexeme.ofChar? at h
  split at h <;> first | (obtain rfl := Option.some.inj h; rfl) | cases h

theorem isSymbol_of_ofPair? {c d : Char} {l : Lexeme} (h : Lexeme.ofPair? c d = some l) :
    l.isSymbol = true := by
  unfold Lexeme.ofPair? at h
  split at h <;> first | (obtain rfl := Option.some.inj h; rfl) | cases h

/-- What is read as a symbol is one. -/
theorem isSymbol_of_symbol {first : Char} {c : Cursor} {l : Lexeme}
    (h : (Lexer.symbol first c).1 = .ok l) : l.isSymbol = true := by
  unfold Lexer.symbol at h
  split at h
  · next hpair =>
    obtain rfl := Except.ok.inj h
    obtain ⟨d, -, hd⟩ := Option.bind_eq_some_iff.1 hpair
    exact isSymbol_of_ofPair? hd
  · split at h
    · next hchar =>
      obtain rfl := Except.ok.inj h
      exact isSymbol_of_ofChar? hchar
    · cases h

/-- A string literal is not longer than its room. -/
theorem stringBody_length {limit : Nat} {start : Position} {chars read : List Char}
    {position : Position} {room : Nat} {l : Lexeme}
    (h : (stringBody limit start chars position room read).1 = .ok l) :
    ∃ text, l = .constant (.string text) ∧ text.length ≤ read.length + room := by
  fun_induction stringBody limit start chars position room read with
  | case1 => cases h
  | case2 rest position room read =>
    obtain rfl := Except.ok.inj h
    exact ⟨_, rfl, by simp⟩
  | case3 => cases h
  | case4 => cases h
  | case5 => cases h
  | case6 _ _ _ _ _ _ _ _ ih =>
    obtain ⟨text, rfl, hlen⟩ := ih h
    exact ⟨text, rfl, by simp at hlen; omega⟩
  | case7 => cases h
  | case8 _ _ _ _ _ _ _ _ ih =>
    obtain ⟨text, rfl, hlen⟩ := ih h
    exact ⟨text, rfl, by simp at hlen; omega⟩

/-- What is read as a number is within the limits. -/
theorem lexed_of_number {c : Cursor} {l : Lexeme} (h : (Lexer.number limits c).1 = .ok l) :
    Lexed limits l := by
  unfold Lexer.number at h
  split at h
  · cases h
  · next whole after hwhole =>
    split at h
    · split at h
      · cases h
      · next fraction last _ =>
        generalize floatOf whole fraction = found at h
        cases found with
        | error => cases h
        | ok x =>
          obtain rfl := Except.ok.inj h
          exact .float
    · obtain rfl := Except.ok.inj h
      obtain ⟨run, -, -, -, hle⟩ := digitRun_inv (Nat.zero_le _) hwhole
      exact .int hle

/-- What is read as a word is a keyword, a constant or a name within the limit. -/
theorem lexed_of_word {c : Char} {rest : List Char} {position : Position} {l : Lexeme}
    (hc : Text.isLetter c = true) (h : (Lexer.word limits ⟨c :: rest, position⟩).1 = .ok l) :
    Lexed limits l := by
  have hpart : Text.isNamePart c = true := by simp [Text.isNamePart, hc]
  unfold Lexer.word at h
  simp only at h
  split at h
  · cases h
  · next hlen =>
    obtain rfl := Except.ok.inj h
    refine .word ⟨?_, ?_, ?_⟩
    · rw [String.toList_ofList, Cursor.span, Cursor.spanFrom, if_pos hpart]
      exact ⟨c, _, rfl, hc⟩
    · rw [String.toList_ofList]
      exact fun d hd => mem_spanFrom hd
    · rw [String.toList_ofList]
      exact Nat.not_lt.1 hlen

/-- **The lexer reads only what its limits allow.** -/
theorem lexed_of_lexeme {char : Char} {rest : List Char} {position : Position} {l : Lexeme}
    (h : (Lexer.lexeme limits ⟨char :: rest, position⟩).1 = .ok l) : Lexed limits l := by
  unfold Lexer.lexeme at h
  simp only [Cursor.current, List.head?_cons] at h
  split at h
  · obtain rfl := Except.ok.inj h
    exact .endOfLine
  split at h
  · obtain rfl := Except.ok.inj h
    exact .comment
  split at h
  · obtain ⟨text, rfl, hlen⟩ := stringBody_length h
    exact .string (by simpa using hlen)
  split at h
  · exact .symbol (isSymbol_of_symbol h)
  split at h
  · exact lexed_of_number h
  split at h
  · next hc => exact lexed_of_word hc h
  · cases h

/-! ## Words -/

/-- A word is in the table of words, or it is a name. -/
theorem Lexeme.mem_words_or (word : String) :
    (word, Lexeme.ofWord word) ∈ Lexeme.words ∨ Lexeme.ofWord word = .identifier word := by
  unfold Lexeme.ofWord
  cases h : Lexeme.words.lookup word with
  | none => exact .inr rfl
  | some l =>
    obtain ⟨before, after, heq, -⟩ := List.lookup_eq_some_iff.1 h
    rw [heq]
    exact .inl (by simp)

/-- A word is the spelling of its lexeme. -/
@[simp] theorem Lexeme.spelling_ofWord (word : String) :
    (Lexeme.ofWord word).spelling = word.toList := by
  rcases Lexeme.mem_words_or word with h | h
  · have hall : ∀ p ∈ Lexeme.words, p.2.spelling = p.1.toList := by decide
    exact hall _ h
  · rw [h]
    rfl

/-- A word is no number, and not the end of the input. -/
theorem Lexeme.ofWord_ne (word : String) :
    (∀ x, Lexeme.ofWord word ≠ .constant (.float x)) ∧
      (∀ n, Lexeme.ofWord word ≠ .constant (.int n)) ∧ Lexeme.ofWord word ≠ .endOfInput := by
  rcases Lexeme.mem_words_or word with h | h
  · generalize Lexeme.ofWord word = l at h
    simp only [Lexeme.words, List.mem_cons, Prod.mk.injEq, List.not_mem_nil, or_false] at h
    rcases h with ⟨-, rfl⟩ | ⟨-, rfl⟩ | ⟨-, rfl⟩ | ⟨-, rfl⟩ | ⟨-, rfl⟩ | ⟨-, rfl⟩ | ⟨-, rfl⟩ |
      ⟨-, rfl⟩ | ⟨-, rfl⟩ | ⟨-, rfl⟩ | ⟨-, rfl⟩ | ⟨-, rfl⟩ | ⟨-, rfl⟩ | ⟨-, rfl⟩ | ⟨-, rfl⟩ <;>
      simp
  · rw [h]
    simp

theorem Lexed.ne_endOfInput {l : Lexeme} (h : Lexed limits l) : l ≠ .endOfInput := by
  cases h with
  | word _ => exact (Lexeme.ofWord_ne _).2.2
  | symbol h => rintro rfl; cases h
  | _ => simp

end FLang
