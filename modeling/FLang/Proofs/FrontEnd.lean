import FLang.Proofs.Prefixes.OnDemand

/-!
# What stops the front end

A source text is refused with a lexical error or a syntax error, unless the limit on integers admits
numbers that cannot be converted (`parse_faults`). There are two such conversions:

* a literal that ends in its point is the float of an integer, which may be too large for a float;
* an integer of too many digits has no text, and a text is made of the digits of a literal with a
  fraction, and of a constant that is shown in an error message.

In both cases the digits stand in the source (`Unconverted`). The limit on integers rules them out
exactly if it is in the range of floats.
-/

namespace FLang

open Lexer Grammar

variable {limits : Limits}

/-- A syntax error. -/
def Fault.IsGrammatical (fault : Fault) : Prop :=
  ∃ position cause, fault = .grammatical position cause

/-- Digits of a text are within the limit and cannot be converted. -/
inductive Unconverted (limits : Limits) (text : List Char) : Fault → Prop where
  | pointed {run : List Char} :
      run ++ ['.'] <:+: text → IsDigits limits run →
      Decimal.overflow ≤ Decimal.natOfDigits run → Unconverted limits text .tooLargeForFloat
  | long {run : List Char} :
      run <:+: text → IsDigits limits run →
      10 ^ Decimal.digitLimit ≤ Decimal.natOfDigits run →
      Unconverted limits text (.tooManyDigits none)

theorem Unconverted.overflow_le {text : List Char} {fault : Fault}
    (h : Unconverted limits text fault) : Decimal.overflow ≤ limits.intLimit := by
  cases h with
  | pointed _ hrun hlarge => exact hlarge.trans hrun.small
  | long _ hrun hlong => exact (Decimal.overflow_le_ten_pow.trans hlong).trans hrun.small

/-! ## Literals without a float -/

theorem Unfloated.unconverted {text source : List Char} {fault : Fault}
    (h : Unfloated limits text fault) (hsource : text <:+ source) :
    Unconverted limits source fault := by
  obtain ⟨whole, fraction, rest, rfl, hwhole, hfraction, hfloat⟩ := h
  by_cases hnone : fraction = []
  · -- nothing stands behind the point, so the digits before it are converted as an integer
    subst hnone
    simp only [floatOf, List.length_nil, if_true] at hfloat
    split at hfloat
    · cases hfloat
    · next hlarge =>
      obtain rfl := Except.error.inj hfloat
      have hbegins : whole ++ ['.'] <:+: whole ++ '.' :: ([] ++ rest) :=
        ⟨[], rest, by simp⟩
      exact .pointed (hbegins.trans hsource.isInfix) hwhole
        (Decimal.intToFloat?_eq_none_iff.1 hlarge)
  · -- with a fraction both runs of digits go through a text
    rw [floatOf_pointed hnone hfraction.digits] at hfloat
    split at hfloat
    · cases hfloat
    next hlong =>
    obtain rfl := Except.error.inj hfloat
    rw [Bool.and_eq_true, not_and_or, Bool.not_eq_true, Bool.not_eq_true,
      Decimal.fits_eq_false_iff, Decimal.fits_eq_false_iff] at hlong
    rcases hlong with hlong | hlong
    · have hbegins : whole <:+: whole ++ '.' :: (fraction ++ rest) := ⟨[], _, rfl⟩
      exact .long (hbegins.trans hsource.isInfix) hwhole hlong
    · have hinner : fraction <:+: whole ++ '.' :: (fraction ++ rest) :=
        ⟨whole ++ ['.'], rest, by simp⟩
      exact .long (hinner.trans hsource.isInfix) hfraction hlong

/-! ## Constants without a text -/

theorem Lexical.isDigits_of_int {text : List Char} {l : Lexeme} {continues : Char → Bool} {n : Nat}
    (h : Lexical limits text l continues) (hl : l = .constant (.int n)) :
    IsDigits limits text ∧ Decimal.natOfDigits text = n := by
  cases h with
  | int _ hrun =>
    cases hl
    exact ⟨hrun, rfl⟩
  | pair h =>
    subst hl
    cases isSymbol_of_ofPair? h
  | single h =>
    subst hl
    cases isSymbol_of_ofChar? h
  | word _ => exact absurd hl ((Lexeme.ofWord_ne _).2.1 n)
  | _ => cases hl

/-- A token that cannot be shown is a constant of too many digits. -/
theorem unconverted_of_describe {fuel : Nat} {c : Cursor} {token : Token} {fault : Fault}
    (h : token ∈ (tokenStreamFrom limits fuel c).tokens)
    (hshown : token.lexeme.describe = .error fault) : Unconverted limits c.rest fault := by
  obtain ⟨n, hn, hfits⟩ := int_of_describe_error hshown
  obtain rfl := describe_error hshown
  obtain ⟨text, continues, htext, hlexical⟩ := lexical_of_mem_tokenStreamFrom h (by simp [hn])
  obtain ⟨hdigits, rfl⟩ := hlexical.isDigits_of_int hn
  exact .long htext hdigits (Decimal.fits_eq_false_iff.1 hfits)

/-! ## The parser -/

/-- **A text is refused with an error of the language, or for a number in it.** -/
theorem parse_fault {source : String} {fault : Fault} (h : parse limits source = .error fault) :
    fault.IsLexical ∨ fault.IsGrammatical ∨
      Unconverted limits (sourceChars source.toList) fault := by
  rcases parseTokens_error h with ⟨r, ts, r', hstart, -, hread, hfound, -⟩ | hfault
  · cases hfound with
    | here cause => exact .inr (.inl ⟨_, _, rfl⟩)
    | redefinition id earlier _ => exact .inr (.inl ⟨_, _, rfl⟩)
    | unshown hshown =>
      refine .inr (.inr ?_)
      rcases TokenStream.Shows.of_reads hstart hread with hshows | ⟨-, -, hend⟩
      · have hcurrent : r'.current ∈ ts ++ [r'.current] := by simp
        exact unconverted_of_describe (mem_significant (hshows.subset hcurrent)).1 hshown
      · rw [hend] at hshown
        cases hshown
  · rcases tokenStreamFrom_fault hfault with hlexical | ⟨text, hsuffix, htext⟩
    · exact .inl hlexical
    · exact .inr (.inr (htext.unconverted hsuffix))

/-- A number that is too large for a float is not read if a point ends it. -/
theorem lexeme_pointed {run : List Char} (hne : run ≠ []) (hrun : IsDigits limits run)
    (hlarge : Decimal.overflow ≤ Decimal.natOfDigits run) (position : Position) :
    (Lexer.lexeme limits ⟨run ++ ['.'], position⟩).1 = .error .tooLargeForFloat := by
  obtain ⟨middle, hread⟩ := hrun.digits_eq (stops_point []) position
  have hnone : Lexer.digits limits.intLimit ⟨[], middle.after '.'⟩ =
      (some ⟨0, 0⟩, ⟨[], middle.after '.'⟩) := rfl
  have hfloat : Decimal.intToFloat? (Decimal.natOfDigits run) = none :=
    Decimal.intToFloat?_eq_none_iff.2 hlarge
  rw [hrun.lexeme_eq hne]
  simp only [Lexer.number, hread, Cursor.current, List.head?_cons, if_true, Cursor.advance, hnone,
    floatOf, hfloat]
  rfl

theorem parse_pointed {run : List Char} (hne : run ≠ []) (hrun : IsDigits limits run)
    (hlarge : Decimal.overflow ≤ Decimal.natOfDigits run) :
    parse limits (String.ofList (run ++ ['.'])) = .error .tooLargeForFloat := by
  have hparts : ∀ c ∈ run, Text.isNamePart c = true := fun c hc => by
    simp [Text.isNamePart, hrun.digits c hc]
  have hsource : Cursor.ofText (String.ofList (run ++ ['.'])) = ⟨run ++ ['.'], .start⟩ := by
    rw [Cursor.ofText, String.toList_ofList, sourceChars_append_nameParts hparts]
    rfl
  have hlexeme := lexeme_pointed hne hrun hlarge .start
  obtain ⟨c, run, rfl⟩ := List.exists_cons_of_ne_nil hne
  have hblank := isBlank_of_isDigit (hrun.digits c List.mem_cons_self)
  simp only [List.cons_append] at hsource hlexeme ⊢
  simp only [parse, tokenStream, hsource, tokenStreamFrom, next_of_not_blank hblank, hlexeme]
  rfl

/-- **What stops the front end.** A text is refused with a lexical error or a syntax error, or for a
number in it that the limit admits and that cannot be converted; and no text is refused in the last
way exactly if the limit on integers is in the range of floats. -/
theorem parse_faults (limits : Limits) :
    (∀ source fault, parse limits source = .error fault →
      fault.IsLexical ∨ fault.IsGrammatical ∨
        Unconverted limits (sourceChars source.toList) fault) ∧
    ((∀ source fault, parse limits source = .error fault →
      fault.IsLexical ∨ fault.IsGrammatical) ↔ limits.intLimit < Decimal.overflow) := by
  refine ⟨fun source fault h => parse_fault h, fun h => ?_, fun hlimit source fault h => ?_⟩
  · by_contra hlimit
    -- the least number that is too large for a float is within the limit
    have hrun : IsDigits limits (Decimal.natDigits Decimal.overflow) :=
      ⟨fun c => isDigit_of_mem_natDigits, by
        rw [natOfDigits_natDigits]
        exact Nat.le_of_not_lt hlimit⟩
    have hparse := parse_pointed (natDigits_ne_nil _) hrun (natOfDigits_natDigits _).ge
    rcases h _ _ hparse with ⟨position, cause, hfault⟩ | ⟨position, cause, hfault⟩
    · cases hfault
    · cases hfault
  · rcases parse_fault h with hlexical | hgrammatical | hnumber
    · exact .inl hlexical
    · exact .inr hgrammatical
    · exact absurd hlimit (Nat.not_lt.2 hnumber.overflow_le)

/-- A one and 309 zeros, with a point behind them. -/
def pointedSource : String :=
  String.ofList ('1' :: List.replicate 309 '0' ++ ['.'])

/-- A limit that admits the number leaves no error of the language for it. -/
theorem parse_pointedSource :
    parse { intLimit := 10 ^ 309 } pointedSource = .error .tooLargeForFloat := by
  have hdigits : ∀ c ∈ '1' :: List.replicate 309 '0', c.isDigit = true := by
    intro c hc
    rcases List.mem_cons.1 hc with rfl | hc
    · decide
    · rw [List.eq_of_mem_replicate hc]
      decide
  exact parse_pointed (List.cons_ne_nil _ _) ⟨hdigits, by decide +kernel⟩ (by decide +kernel)

end FLang
