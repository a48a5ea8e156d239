import FLang.Proofs.Lexing.LongestMatch

/-!
# Number literals

A number is read exactly, and the limit is sharp (`number_literals_exact`): digits are refused if
and only if their number is larger than the limit, however many zeros they begin with, and otherwise
an integer literal is that number. For a float literal the number before the point is converted as
it is, or together with the digits behind the point as a text, which denotes exactly the rational
number that the literal does (`Expresses`).

* `digits_exceed` — the check before each digit finds every number that is too large;
* `floatOf_expresses` — the zeros behind the point are lost when their number is computed and come
  back with the count of the digits.
-/

namespace FLang

open Lexer Decimal

variable {limits : Limits} {run rest : List Char}

/-- A text is digits around a point, and denotes the number before it and the fraction behind it. -/
inductive Expresses : String → ℚ → Prop where
  | pointed {whole fraction : List Char} :
      whole ≠ [] → AllDigits whole → AllDigits fraction →
      Expresses (String.ofList (whole ++ '.' :: fraction))
        (decimalValue whole + decimalValue fraction / 10 ^ fraction.length)

/-! ## Runs of digits -/

/-- Two runs of digits that begin a text and end where something else comes next are the same. -/
theorem digits_unique {run' rest' : List Char} (hrun : AllDigits run)
    (hrest : Stops Char.isDigit rest) (hrun' : AllDigits run') (hrest' : Stops Char.isDigit rest')
    (h : run ++ rest = run' ++ rest') : run = run' := by
  rw [← (hrun.takeWhile_append hrest).1, h, (hrun'.takeWhile_append hrest').1]

/-- Digits whose number is larger than the limit are not read. -/
theorem digits_exceed (hrun : AllDigits run) (hrest : Stops Char.isDigit rest)
    (hlarge : limits.intLimit < natOfDigits run) (position : Position) :
    ∃ after, Lexer.digits limits.intLimit ⟨run ++ rest, position⟩ = (none, after) := by
  rcases hread : Lexer.digits limits.intLimit ⟨run ++ rest, position⟩ with ⟨_ | found, after⟩
  · exact ⟨after, rfl⟩
  · -- digits that are read are all of the run, and within the limit
    obtain ⟨run', hsplit, hrun', hstops, -⟩ := isDigits_of_digits hread
    obtain rfl := digits_unique hrun hrest hrun'.digits hstops hsplit
    exact absurd hrun'.small (Nat.not_le.2 hlarge)

/-! ## Floats -/

/-- The text of a float literal denotes the number of its digits, and the float is read from it. -/
theorem floatOf_expresses {whole count : Nat} {fraction : List Char} (hne : fraction ≠ [])
    (hfraction : AllDigits fraction) (hwhole : whole < 10 ^ digitLimit)
    (hsmall : natOfDigits fraction < 10 ^ digitLimit) :
    ∃ text x, floatText? ⟨whole, count⟩ ⟨natOfDigits fraction, fraction.length⟩ = some text ∧
      Expresses text (whole + natOfDigits fraction / 10 ^ fraction.length) ∧
      readFloat? text = some x ∧
      floatOf ⟨whole, count⟩ ⟨natOfDigits fraction, fraction.length⟩ = .ok x := by
  have hdigits : AllDigits (natDigits whole) := fun _ => isDigit_of_mem_natDigits
  have htext : floatText? ⟨whole, count⟩ ⟨natOfDigits fraction, fraction.length⟩ =
      some (String.ofList (natDigits whole ++ '.' :: fraction)) := by
    rw [floatText?_eq _ _ hne hfraction, fits_of_lt hwhole (Nat.le_refl _),
      fits_of_lt hsmall (Nat.le_refl _)]
    rfl
  have hread := readFloat?_pointed (natDigits_ne_nil whole) hdigits hfraction
  refine ⟨_, _, htext, ?_, hread, ?_⟩
  · have hexpresses := Expresses.pointed (natDigits_ne_nil whole) hdigits hfraction
    rwa [← natOfDigits_eq_decimalValue, ← natOfDigits_eq_decimalValue,
      natOfDigits_natDigits] at hexpresses
  · have hcount : fraction.length ≠ 0 := fun h => hne (List.eq_nil_of_length_eq_zero h)
    rw [floatOf, if_neg hcount, htext, Option.bind_some, hread]

/-! ## Numbers -/

section

variable (position : Position) (hrun : AllDigits run)
include hrun

theorem next_digits (hne : run ≠ []) :
    Lexer.next limits ⟨run ++ rest, position⟩ =
      ((Lexer.number limits ⟨run ++ rest, position⟩).1.map fun l => ⟨l, position⟩,
        (Lexer.number limits ⟨run ++ rest, position⟩).2) := by
  rw [← lexeme_digits hrun hne]
  obtain ⟨c, run, rfl⟩ := List.exists_cons_of_ne_nil hne
  exact next_of_not_blank (isBlank_of_isDigit (hrun c (List.mem_cons_self ..))) position

theorem number_exceeds (hrest : Stops Char.isDigit rest)
    (hlarge : limits.intLimit < natOfDigits run) :
    (Lexer.number limits ⟨run ++ rest, position⟩).1 =
      .error (.lexical position .intCapacityExceeded) := by
  obtain ⟨after, hread⟩ := digits_exceed hrun hrest hlarge position
  rw [Lexer.number, hread]

/-- An integer within the limit is its number. -/
theorem number_int (hsmall : natOfDigits run ≤ limits.intLimit) (hrest : Stops Char.isDigit rest)
    (hpoint : rest.head? ≠ some '.') :
    ∃ position', Lexer.number limits ⟨run ++ rest, position⟩ =
      (.ok (.constant (.int (natOfDigits run))), ⟨rest, position'⟩) := by
  obtain ⟨position', hread⟩ := digits_append hrun hsmall hrest position
  refine ⟨position', ?_⟩
  rw [Lexer.number, hread]
  exact if_neg hpoint

/-- Behind the digits before a point, the digits behind it decide. -/
theorem number_pointed (hsmall : natOfDigits run ≤ limits.intLimit) (more : List Char) :
    ∃ position', Lexer.number limits ⟨run ++ '.' :: more, position⟩ =
      match Lexer.digits limits.intLimit ⟨more, position'⟩ with
      | (none, last) => (.error (.lexical position .floatCapacityExceeded), last)
      | (some fraction, last) =>
        ((floatOf ⟨natOfDigits run, run.length⟩ fraction).map fun x => .constant (.float x),
          last) := by
  obtain ⟨middle, hread⟩ := digits_append hrun hsmall (stops_point more) position
  refine ⟨middle.after '.', ?_⟩
  rw [Lexer.number, hread]
  rfl

/-- A fraction is refused if its number is too large. -/
theorem number_fraction_exceeds {fraction : List Char} (hsmall : natOfDigits run ≤ limits.intLimit)
    (hfraction : AllDigits fraction) (hrest : Stops Char.isDigit rest)
    (hlarge : limits.intLimit < natOfDigits fraction) :
    (Lexer.number limits ⟨run ++ '.' :: (fraction ++ rest), position⟩).1 =
      .error (.lexical position .floatCapacityExceeded) := by
  obtain ⟨middle, hpointed⟩ := number_pointed position hrun hsmall (fraction ++ rest)
  obtain ⟨last, hread⟩ := digits_exceed hfraction hrest hlarge middle
  rw [hpointed, hread]

/-- With a fraction that is not too large, the numbers of both runs of digits are converted. -/
theorem number_float {fraction : List Char} (hsmall : natOfDigits run ≤ limits.intLimit)
    (hfraction : AllDigits fraction) (hrest : Stops Char.isDigit rest)
    (hsmall' : natOfDigits fraction ≤ limits.intLimit) :
    ∃ position', Lexer.number limits ⟨run ++ '.' :: (fraction ++ rest), position⟩ =
      ((floatOf ⟨natOfDigits run, run.length⟩ ⟨natOfDigits fraction, fraction.length⟩).map
        fun x => .constant (.float x), ⟨rest, position'⟩) := by
  obtain ⟨middle, hpointed⟩ := number_pointed position hrun hsmall (fraction ++ rest)
  obtain ⟨position', hread⟩ := digits_append hfraction hsmall' hrest middle
  exact ⟨position', by rw [hpointed, hread]; rfl⟩

end

/-- **Numbers are read exactly, and the limit is sharp.** Some digits are followed by something
else. If their number is larger than the limit, that is an error at the first digit. Otherwise they
are an integer literal of that number, unless a point and some digits follow. Then it is an error at
the first digit if the number of these digits is larger than the limit. If not, the number before
the point is converted if nothing stands behind the point, and otherwise a text is converted that
denotes exactly the number with its fraction. -/
theorem number_literals_exact (hlimit : limits.intLimit < 10 ^ digitLimit) {digits : List Char}
    (hne : digits ≠ []) (hdigits : AllDigits digits) {following : List Char}
    (hfollowing : Stops Char.isDigit following) (position : Position) :
    (limits.intLimit < decimalValue digits →
      (Lexer.next limits ⟨digits ++ following, position⟩).1 =
        .error (.lexical position .intCapacityExceeded)) ∧
    (decimalValue digits ≤ limits.intLimit → following.head? ≠ some '.' →
      ∃ position', Lexer.next limits ⟨digits ++ following, position⟩ =
        (.ok ⟨.constant (.int (decimalValue digits)), position⟩, ⟨following, position'⟩)) ∧
    ∀ fraction rest, decimalValue digits ≤ limits.intLimit →
      following = '.' :: (fraction ++ rest) → AllDigits fraction → Stops Char.isDigit rest →
      (limits.intLimit < decimalValue fraction →
        (Lexer.next limits ⟨digits ++ following, position⟩).1 =
          .error (.lexical position .floatCapacityExceeded)) ∧
      (fraction = [] →
        ∃ position', Lexer.next limits ⟨digits ++ following, position⟩ =
          (match intToFloat? (decimalValue digits) with
            | some x => .ok ⟨.constant (.float x), position⟩
            | none => .error .tooLargeForFloat, ⟨rest, position'⟩)) ∧
      (decimalValue fraction ≤ limits.intLimit → fraction ≠ [] →
        ∃ text x position',
          floatText? ⟨decimalValue digits, digits.length⟩
            ⟨decimalValue fraction, fraction.length⟩ = some text ∧
          Expresses text (decimalValue digits + decimalValue fraction / 10 ^ fraction.length) ∧
          readFloat? text = some x ∧
          Lexer.next limits ⟨digits ++ following, position⟩ =
            (.ok ⟨.constant (.float x), position⟩, ⟨rest, position'⟩)) := by
  simp only [← natOfDigits_eq_decimalValue, next_digits position hdigits hne]
  refine ⟨?_, ?_, ?_⟩
  · intro hlarge
    rw [number_exceeds position hdigits hfollowing hlarge]
    rfl
  · intro hsmall hpoint
    obtain ⟨position', hread⟩ := number_int position hdigits hsmall hfollowing hpoint
    exact ⟨position', by rw [hread]; rfl⟩
  rintro fraction rest hsmall rfl hfraction hrest
  refine ⟨?_, ?_, ?_⟩
  · intro hlarge
    rw [number_fraction_exceeds position hdigits hsmall hfraction hrest hlarge]
    rfl
  · rintro rfl
    obtain ⟨position', hread⟩ :=
      number_float position hdigits hsmall hfraction hrest (Nat.zero_le _)
    refine ⟨position', ?_⟩
    -- no text is built for a fraction without digits: the integer is converted, which fails if it
    -- is too large
    rw [hread, floatOf, if_pos List.length_nil]
    cases intToFloat? (natOfDigits digits) <;> rfl
  · intro hsmall' hsome
    obtain ⟨position', hread⟩ := number_float position hdigits hsmall hfraction hrest hsmall'
    obtain ⟨text, x, htext, hexpresses, hfloat, hof⟩ := floatOf_expresses hsome hfraction
      (hsmall.trans_lt hlimit) (hsmall'.trans_lt hlimit)
    refine ⟨text, x, position', htext, hexpresses, hfloat, ?_⟩
    rw [hread, hof]
    rfl

/-- With the limit `50`, zeros count neither before nor behind the point: `007.050` is within it. -/
theorem number_literals_exact_zeros :
    ∃ text x position', floatText? ⟨7, 3⟩ ⟨50, 3⟩ = some text ∧
      Expresses text ((7 : Nat) + (50 : Nat) / 10 ^ 3) ∧ readFloat? text = some x ∧
      Lexer.next { intLimit := 50 } ⟨['0', '0', '7', '.', '0', '5', '0', ';'], ⟨1, 1⟩⟩ =
        (.ok ⟨.constant (.float x), ⟨1, 1⟩⟩, ⟨[';'], position'⟩) := by
  have hlimit : Limits.intLimit { intLimit := 50 } < 10 ^ digitLimit :=
    Nat.lt_of_lt_of_le (by decide : 50 < 10 ^ 2) (Nat.pow_le_pow_right (by decide) (by decide))
  have hdigits : AllDigits ['0', '0', '7'] := allDigits_iff.2 (by decide)
  have hend : Stops Char.isDigit [';'] := by
    rintro _ ⟨⟩
    rfl
  have hexact := number_literals_exact hlimit (List.cons_ne_nil _ _) hdigits
    (stops_point ['0', '5', '0', ';']) ⟨1, 1⟩
  exact (hexact.2.2 ['0', '5', '0'] [';'] (by decide) rfl (allDigits_iff.2 (by decide)) hend).2.2
    (by decide) (List.cons_ne_nil _ _)

end FLang
