import FLang.Proofs.Lexing.LongestMatch

/-!
# Larger limits

The limits of the lexer are capacities and nothing else: a text that is read without exceeding one
of them is read alike within larger limits, to the same tokens or to the same error
(`tokenize_of_larger_limits`).

No limit is ever part of what is read. Each of the three loops compares a counter with its limit
before it takes a character: the length of a string, the number of a run of digits and the length of
a name. So the loop within the larger limit goes the same way until the smaller one is exceeded
(`stringBody_of_le`, `digitRun_of_le`, `word_of_within`), and reading goes on where it went on
before.
-/

namespace FLang

open Lexer

/-- The errors of an exceeded capacity. -/
def Diagnostic.Code.capacities : List Diagnostic.Code :=
  [.intCapacityExceeded, .floatCapacityExceeded, .identifierCapacityExceeded,
   .stringCapacityExceeded]

/-- A lexical error of an exceeded capacity. -/
def Fault.ExceedsCapacity (fault : Fault) : Prop :=
  ∃ position cause, fault = .lexical position cause ∧ cause.code ∈ Diagnostic.Code.capacities

/-- Lexical capacities that allow no more than others do. Tokens are not nested, so the limit for
nesting does not count. -/
structure Limits.Within (limits limits' : Limits) : Prop where
  identifierLimit : limits.identifierLimit ≤ limits'.identifierLimit
  stringLimit : limits.stringLimit ≤ limits'.stringLimit
  intLimit : limits.intLimit ≤ limits'.intLimit

/-- The first result is repeated by the second one, if it is not an exceeded capacity. -/
def Lexer.Repeats {α : Type} (first second : Except Fault α × Cursor) : Prop :=
  (∃ fault, first.1 = .error fault ∧ fault.ExceedsCapacity) ∨ second = first

theorem Lexer.Repeats.refl {α : Type} (result : Except Fault α × Cursor) :
    Repeats result result :=
  .inr rfl

/-- An error about a capacity need not be repeated. -/
theorem Lexer.Repeats.exceeded {α : Type} {position : Position} {cause : Diagnostic.Cause}
    {after : Cursor} (second : Except Fault α × Cursor)
    (h : cause.code ∈ Diagnostic.Code.capacities) :
    Repeats (.error (.lexical position cause), after) second :=
  .inl ⟨_, rfl, position, cause, rfl, h⟩

/-! ## Loops within larger limits -/

/-- A string that is short enough for a limit is short enough for a larger one. -/
theorem stringBody_of_le (limit limit' : Nat) (start : Position) (chars : List Char)
    (position : Position) (room : Nat) (read : List Char) :
    ∀ room' ≥ room, Repeats (stringBody limit start chars position room read)
      (stringBody limit' start chars position room' read) := by
  fun_induction stringBody limit start chars position room read with
  | case1 => exact fun room' _ => .inr (by simp only [stringBody])
  | case2 => exact fun room' _ => .inr (by simp only [stringBody])
  | case3 => exact fun room' _ => .inr (by simp only [stringBody]; rfl)
  | case4 escape rest position room read _ hescape =>
    exact fun room' _ => .inr (by simp only [stringBody, hescape]; rfl)
  | case5 =>
    exact fun _ _ => .exceeded _ (by simp [Diagnostic.Cause.code, Diagnostic.Code.capacities])
  | case6 escape rest position read _ char room hescape ih =>
    rintro (_ | room') hroom
    · cases hroom
    · have hstep : stringBody limit' start ('\\' :: escape :: rest) position (room' + 1) read =
          stringBody limit' start rest ((position.after '\\').after escape) room'
            (char :: read) := by
        simp [stringBody, hescape]
      rw [hstep]
      exact ih room' (Nat.le_of_succ_le_succ hroom)
  | case7 =>
    exact fun _ _ => .exceeded _ (by simp [Diagnostic.Cause.code, Diagnostic.Code.capacities])
  | case8 char rest position room read hquote hend hslash ih =>
    rintro (_ | room') hroom
    · cases hroom
    · have hstep : stringBody limit' start (char :: rest) position (room' + 1) read =
          stringBody limit' start rest (position.after char) room' (char :: read) := by
        rw [stringBody] <;> assumption
      rw [hstep]
      exact ih room' (Nat.le_of_succ_le_succ hroom)

/-- A run of digits whose number is small enough for a limit is the same for a larger one. -/
theorem digitRun_of_le {limit limit' : Nat} (h : limit ≤ limit') (chars : List Char)
    (position : Position) (d : Digits) :
    (digitRun limit chars position d).1 = none ∨
      digitRun limit' chars position d = digitRun limit chars position d := by
  induction chars generalizing position d with
  | nil => exact .inr rfl
  | cons c chars ih =>
    by_cases hdigit : c.isDigit = true
    · by_cases hpasses : passes limit d.value (c.toNat - '0'.toNat) = true
      · simp only [digitRun, hdigit, hpasses, if_true, true_or]
      · have hstays : ¬ passes limit' d.value (c.toNat - '0'.toNat) = true := by
          rw [passes_iff] at hpasses ⊢
          omega
        simp only [digitRun, hdigit, hpasses, hstays, if_true]
        exact ih _ _
    · simp [digitRun, hdigit]

section
variable {limits limits' : Limits}

/-- A number that fits is read alike within larger limits. -/
theorem number_of_within (h : limits.Within limits') (c : Cursor) :
    Repeats (Lexer.number limits c) (Lexer.number limits' c) := by
  have hwhole := digitRun_of_le h.intLimit c.rest c.position ⟨0, 0⟩
  simp only [Lexer.number, digits]
  rcases hread : digitRun limits.intLimit c.rest c.position ⟨0, 0⟩ with ⟨_ | whole, after⟩
  · exact .exceeded _ (by decide)
  · rw [hread] at hwhole
    rw [hwhole.resolve_left (by simp)]
    simp only
    -- a point starts a second run of digits, with the same limit
    split
    · have hfraction :=
        digitRun_of_le h.intLimit after.advance.rest after.advance.position ⟨0, 0⟩
      rcases hread' : digitRun limits.intLimit after.advance.rest after.advance.position ⟨0, 0⟩
        with ⟨_ | fraction, last⟩
      · exact .exceeded _ (by decide)
      · rw [hread'] at hfraction
        rw [hfraction.resolve_left (by simp)]
        exact .refl _
    · exact .refl _

/-- A name that fits is read alike within larger limits. -/
theorem word_of_within (h : limits.Within limits') (c : Cursor) :
    Repeats (Lexer.word limits c) (Lexer.word limits' c) := by
  simp only [Lexer.word]
  by_cases hlong : (c.span Text.isNamePart).1.length > limits.identifierLimit
  · rw [if_pos hlong]
    exact .exceeded _ (by simp [Diagnostic.Cause.code, Diagnostic.Code.capacities])
  · have hshort : ¬ (c.span Text.isNamePart).1.length > limits'.identifierLimit := by
      have := h.identifierLimit
      omega
    rw [if_neg hlong, if_neg hshort]
    exact .refl _

/-! ## Tokens within larger limits -/

/-- **A lexeme that exceeds no capacity is read alike within larger limits**, found or not. -/
theorem lexeme_of_within (h : limits.Within limits') (c : Cursor) :
    Repeats (Lexer.lexeme limits c) (Lexer.lexeme limits' c) := by
  simp only [Lexer.lexeme]
  split
  · exact .refl _
  · split_ifs
    · exact .refl _
    · exact .refl _
    · exact stringBody_of_le _ _ _ _ _ _ _ _ h.stringLimit
    · exact .refl _
    · exact number_of_within h c
    · exact word_of_within h c
    · exact .refl _

/-- **A token that fits is read alike within larger limits.** -/
theorem next_of_within (h : limits.Within limits') (c : Cursor) :
    Repeats (Lexer.next limits c) (Lexer.next limits' c) := by
  rcases lexeme_of_within h (c.skip isBlank) with ⟨fault, hfault, hexceeds⟩ | hsame
  · refine .inl ⟨fault, ?_, hexceeds⟩
    simp [Lexer.next, hfault, Except.map]
  · refine .inr ?_
    simp [Lexer.next, hsame]

/-- **Reading tokens goes the same way within larger limits** until a capacity is exceeded. -/
theorem tokenStreamFrom_of_within (h : limits.Within limits') (fuel : Nat) (c : Cursor) :
    (∃ fault, (tokenStreamFrom limits fuel c).fault = some fault ∧ fault.ExceedsCapacity) ∨
      tokenStreamFrom limits' fuel c = tokenStreamFrom limits fuel c := by
  induction fuel generalizing c with
  | zero => exact .inr rfl
  | succ fuel ih =>
    simp only [tokenStreamFrom]
    rcases next_of_within h c with ⟨fault, hfault, hexceeds⟩ | hsame
    · rcases hnext : Lexer.next limits c with ⟨found | token, after⟩
      · rw [hnext] at hfault
        obtain rfl := Except.error.inj hfault
        exact .inl ⟨found, rfl, hexceeds⟩
      · rw [hnext] at hfault
        cases hfault
    · rw [hsame]
      rcases Lexer.next limits c with ⟨fault | token, after⟩
      · exact .inr rfl
      · by_cases hend : token.lexeme = .endOfInput
        · simp [hend]
        · simp only [if_neg hend]
          rcases ih after with hexceeds | hsame
          · exact .inl hexceeds
          · exact .inr (by rw [hsame])

/-- **Larger limits only turn exceeded capacities into something else.** Either a text exceeds a
capacity, or it has the same tokens within larger limits, or it is the same lexical error there: of
the same cause, at the same position. -/
theorem tokenize_of_larger_limits (source : String) (h : limits.Within limits')
    (hlimit : limits'.intLimit < 10 ^ 308) :
    (∃ position cause, tokenize limits source = .error (.lexical position cause) ∧
      cause.code ∈ Diagnostic.Code.capacities) ∨
    (∃ tokens, tokenize limits source = .ok tokens ∧ tokenize limits' source = .ok tokens) ∨
    ∃ position cause, tokenize limits source = .error (.lexical position cause) ∧
      tokenize limits' source = .error (.lexical position cause) := by
  have hsmall : limits.intLimit < 10 ^ 308 := h.intLimit.trans_lt hlimit
  have hstream := tokenStreamFrom_of_within h ((Cursor.ofText source).rest.length + 1)
    (.ofText source)
  simp only [tokenize, tokenStream]
  rcases hstream with ⟨fault, hfault, position, cause, rfl, hcode⟩ | hsame
  · exact .inl ⟨position, cause, by simp [hfault], hcode⟩
  · rw [hsame]
    cases hfault : (tokenStreamFrom limits ((Cursor.ofText source).rest.length + 1)
        (.ofText source)).fault with
    | none => exact .inr (.inl ⟨_, rfl, rfl⟩)
    | some fault =>
      obtain ⟨position, cause, rfl⟩ := isLexical_of_tokenStreamFrom hsmall hfault
      exact .inr (.inr ⟨position, cause, rfl, rfl⟩)

end

/-- A text that uses some limits up: a name of four letters, a string of two and the number 99. -/
def filledSource : String :=
  "name = \"a\\n\" + 99.07"

theorem tokenize_of_larger_limits_filledSource :
    Limits.Within ⟨4, 2, 99, 0⟩ {} ∧ Limits.intLimit {} < 10 ^ 308 ∧
      ∃ tokens, tokenize ⟨4, 2, 99, 0⟩ filledSource = .ok tokens ∧
        tokenize {} filledSource = .ok tokens := by
  have hwithin : Limits.Within ⟨4, 2, 99, 0⟩ {} := ⟨by decide, by decide, by decide⟩
  have hlimit : Limits.intLimit {} < 10 ^ 308 := by decide +kernel
  have htokens : tokenize ⟨4, 2, 99, 0⟩ filledSource =
      .ok [⟨.identifier "name", ⟨1, 1⟩⟩, ⟨.punctuation .assign, ⟨1, 6⟩⟩,
        ⟨.constant (.string "a\n"), ⟨1, 8⟩⟩, ⟨.operator (.arithmetic .sum), ⟨1, 14⟩⟩,
        ⟨.constant (.float 99.07), ⟨1, 16⟩⟩, ⟨.endOfInput, ⟨1, 21⟩⟩] := by
    decide +kernel
  refine ⟨hwithin, hlimit, ?_⟩
  rcases tokenize_of_larger_limits filledSource hwithin hlimit with
    ⟨_, _, herror, -⟩ | hok | ⟨_, _, herror, -⟩
  · rw [htokens] at herror
    cases herror
  · exact hok
  · rw [htokens] at herror
    cases herror

end FLang
