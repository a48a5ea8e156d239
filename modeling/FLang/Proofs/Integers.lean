import FLang.Proofs.Casts
import FLang.Proofs.Decimal.Digits
import FLang.Value.Argument

/-!
# Integers and their texts

The conversions between integers and texts agree with each other (`integer_texts_agree`). A text
denotes an integer if it is an optional sign and at most `digitLimit` digits (`IntegerText`); a cast
to `int` takes these texts and no others, and a command-line argument of that form is the same
integer. The text of an integer denotes it again, and of all texts that do it is the one without a
plus sign and leading zeros (`canonicalText`).

Beyond `digitLimit` digits the two readers differ: the cast is refused like that of any other text,
the argument is a fault.
-/

namespace FLang

open Decimal

/-- A text denotes an integer. -/
def IntegerText (text : String) (n : Int) : Prop :=
  ∃ negative digits, SignedDigits text.toList negative digits ∧ digits.length ≤ digitLimit ∧
    n = signed negative (decimalValue digits)

/-- The text of an integer without a plus sign and leading zeros, from a sign and some digits. Zero
has no sign. -/
def canonicalText (negative : Bool) (digits : List Char) : String :=
  String.ofList <|
    if negative && stripZeros digits ≠ ['0'] then '-' :: stripZeros digits else stripZeros digits

/-! ## Reading -/

/-- An integer is read exactly from the texts of that integer. -/
theorem readInt_eq_int_iff_integerText {text : String} {n : Int} :
    readInt text = .int n ↔ IntegerText text n := by
  simp only [readInt_eq_int_iff, IntegerText, natOfDigits_eq_decimalValue]

/-- A sign and digits can be told apart in one way only. -/
theorem signedDigits_unique {text digits digits' : List Char} {negative negative' : Bool}
    (h : SignedDigits text negative digits) (h' : SignedDigits text negative' digits') :
    negative = negative' ∧ digits = digits' :=
  Prod.mk.inj ((signedDigits_iff.1 h).1.symm.trans (signedDigits_iff.1 h').1)

/-- Digits beyond the limit are counted and not read. -/
theorem readInt_of_long {text : String} {negative : Bool} {digits : List Char}
    (h : SignedDigits text.toList negative digits) (hlong : digitLimit < digits.length) :
    readInt text = .tooLong digits.length := by
  obtain ⟨hsplit, hne, hdigits⟩ := signedDigits_iff.1 h
  simp [readInt, hsplit, hne, allDigits_iff.1 hdigits, hlong]

/-- What is not a sign and digits is not read at all. -/
theorem readInt_of_not_signedDigits {text : String}
    (h : ∀ negative digits, ¬ SignedDigits text.toList negative digits) :
    readInt text = .notInt := by
  obtain ⟨negative, digits, hsplit⟩ :
      ∃ negative digits, splitSign text.toList = (negative, digits) := ⟨_, _, rfl⟩
  have hother : digits = [] ∨ ¬ AllDigits digits := by
    by_contra hdigits
    rw [not_or, not_not] at hdigits
    exact h negative digits (signedDigits_iff.2 ⟨hsplit, hdigits⟩)
  rw [allDigits_iff] at hother
  simp only [readInt, hsplit]
  rw [if_pos (by simpa using hother)]

/-! ## Writing -/

theorem natDigits_eq_zero_iff {n : Nat} : natDigits n = ['0'] ↔ n = 0 := by
  constructor
  · intro h
    rw [← natOfDigits_natDigits n, h]
    rfl
  · rintro rfl
    rfl

@[simp] theorem natAbs_signed (negative : Bool) (n : Nat) : (signed negative n).natAbs = n := by
  cases negative <;> simp [signed]

/-- An integer is written without a plus sign and leading zeros. -/
theorem intText_signed {negative : Bool} {digits : List Char} (h : AllDigits digits) :
    intText (signed negative (natOfDigits digits)) = canonicalText negative digits := by
  have hzero : stripZeros digits = ['0'] ↔ natOfDigits digits = 0 := by
    rw [← natDigits_natOfDigits h, natDigits_eq_zero_iff]
  have hsign : signed negative (natOfDigits digits) < 0 ↔
      (negative && stripZeros digits ≠ ['0']) = true := by
    rw [Bool.and_eq_true, decide_eq_true_eq, ne_eq, hzero]
    cases negative
    · simp [signed]
    · simp [signed, Nat.pos_iff_ne_zero]
  rw [intText, canonicalText, natAbs_signed, natDigits_natOfDigits h]
  simp only [hsign]

/-- The text of an integer is a sign and the digits of its magnitude. -/
theorem signedDigits_intText (n : Int) :
    SignedDigits (intText n).toList (decide (n < 0)) (natDigits n.natAbs) := by
  refine ⟨?_, natDigits_ne_nil _, fun _ => isDigit_of_mem_natDigits⟩
  rw [intText, String.toList_ofList]
  by_cases hneg : n < 0
  · simp only [hneg, if_true, decide_true]
    exact ⟨_, .minus, rfl⟩
  · simp only [hneg, if_false, decide_false]
    exact ⟨_, .missing, rfl⟩

@[simp] theorem signed_natAbs (n : Int) : signed (decide (n < 0)) n.natAbs = n := by
  by_cases hneg : n < 0
  · rw [signed, if_pos (decide_eq_true hneg)]
    omega
  · rw [signed, if_neg (by simpa using hneg)]
    omega

/-- The text of an integer that is not too long denotes it. -/
theorem integerText_intText {n : Int} (h : n.natAbs < 10 ^ digitLimit) :
    IntegerText (intText n) n := by
  refine ⟨_, _, signedDigits_intText n, length_natDigits_le h (by decide), ?_⟩
  rw [← natOfDigits_eq_decimalValue, natOfDigits_natDigits, signed_natAbs]

theorem intText?_of_lt {n : Int} (h : n.natAbs < 10 ^ digitLimit) :
    intText? n = some (intText n) := by
  cases hfits : fits n with
  | false => exact absurd (fits_eq_false_iff.1 hfits) (Nat.not_le.2 h)
  | true => rw [intText?, if_pos hfits]

/-! ## Casts -/

namespace Value

variable {position : Position}

/-- The error of a cast shows the text in quotes. -/
theorem cast_string_int (text : String) :
    (Value.string text).cast .int position =
      match readInt text with
      | .int n => .ok (.int n)
      | _ =>
        .error (.semantic position
          (.invalidCast ("\"" ++ text ++ "\"") (.basic .string) .int)) := by
  have htype : (Value.string text).type ≠ BasicType.int := by simp [type]
  rw [cast, if_neg htype, convert?, toInt?]
  cases readInt text <;> rfl

theorem cast_string_int_eq_ok_iff {text : String} {n : Int} :
    (Value.string text).cast .int position = .ok (.int n) ↔ IntegerText text n := by
  rw [← readInt_eq_int_iff_integerText, cast_string_int]
  cases readInt text <;> simp

theorem cast_int_string {n : Int} (h : n.natAbs < 10 ^ digitLimit) :
    (Value.int n).cast .string position = .ok (.string (intText n)) := by
  have htype : (Value.int n).type ≠ BasicType.string := by simp [type]
  obtain ⟨text, htext, hrender⟩ | ⟨hnone, -⟩ := render_int n
  · rw [intText?_of_lt h] at htext
    obtain rfl := Option.some.inj htext
    rw [cast, if_neg htype, convert?, toText?_int, hrender]
    rfl
  · rw [intText?_of_lt h] at hnone
    cases hnone

end Value

/-- The integer that digits of at most the limit denote is not too long for a text. -/
theorem natAbs_signed_lt {negative : Bool} {digits : List Char} (h : AllDigits digits)
    (hlength : digits.length ≤ digitLimit) :
    (signed negative (natOfDigits digits)).natAbs < 10 ^ digitLimit := by
  rw [natAbs_signed]
  exact (natOfDigits_lt h).trans_le (Nat.pow_le_pow_right (by decide) hlength)

/-- **Integers and texts are converted into each other in one way.** A cast takes exactly the texts
that denote an integer and refuses all others. An integer of at most `digitLimit` digits is the cast
of its own text, and the text of an integer that came from a text is that text without a plus sign
and leading zeros. A command-line argument that denotes an integer is the same integer as its cast;
one that is not a sign and digits stays a text, and one of too many digits is a fault. -/
theorem integer_texts_agree (position : Position) :
    (∀ (text : String) (n : Int),
      (Value.string text).cast .int position = .ok (.int n) ↔ IntegerText text n) ∧
    (∀ text : String, (¬ ∃ n, IntegerText text n) →
      (Value.string text).cast .int position =
        .error (.semantic position (.invalidCast ("\"" ++ text ++ "\"") (.basic .string) .int))) ∧
    (∀ n : Int, (Nat.digits 10 n.natAbs).length ≤ digitLimit →
      ∃ text, (Value.int n).cast .string position = .ok (.string text) ∧
        (Value.string text).cast .int position = .ok (.int n)) ∧
    (∀ (text : String) (n : Int) (negative : Bool) (digits : List Char),
      (Value.string text).cast .int position = .ok (.int n) →
      SignedDigits text.toList negative digits →
      (Value.int n).cast .string position = .ok (.string (canonicalText negative digits)) ∧
        Value.ofArgument text = .ok (.int n)) ∧
    (∀ text : String, (∀ negative digits, ¬ SignedDigits text.toList negative digits) →
      Value.ofArgument text = .ok (.string text)) ∧
    (∀ (text : String) (negative : Bool) (digits : List Char),
      SignedDigits text.toList negative digits → digitLimit < digits.length →
      Value.ofArgument text = .error (.tooManyDigits (some digits.length))) := by
  refine ⟨fun _ _ => Value.cast_string_int_eq_ok_iff, ?_, ?_, ?_, ?_, ?_⟩
  · intro text hother
    rw [Value.cast_string_int]
    split
    · next n hread => exact absurd ⟨n, readInt_eq_int_iff_integerText.1 hread⟩ hother
    · rfl
  · intro n hlength
    have hlt : n.natAbs < 10 ^ digitLimit := (Nat.digits_length_le_iff (by decide) _).1 hlength
    exact ⟨_, Value.cast_int_string hlt,
      Value.cast_string_int_eq_ok_iff.2 (integerText_intText hlt)⟩
  · intro text n negative digits hcast hdigits
    have hdenotes := Value.cast_string_int_eq_ok_iff.1 hcast
    refine ⟨?_, ?_⟩
    · obtain ⟨negative', digits', hdigits', hlength, rfl⟩ := hdenotes
      -- a text is split into its sign and digits in one way only
      obtain ⟨rfl, rfl⟩ := signedDigits_unique hdigits hdigits'
      rw [← natOfDigits_eq_decimalValue,
        Value.cast_int_string (natAbs_signed_lt hdigits.allDigits hlength),
        intText_signed hdigits.allDigits]
    · rw [Value.ofArgument, readInt_eq_int_iff_integerText.2 hdenotes]
  · intro text hother
    rw [Value.ofArgument, readInt_of_not_signedDigits hother]
  · intro text negative digits hdigits hlong
    rw [Value.ofArgument, readInt_of_long hdigits hlong]

/-- Zeros behind a minus sign are not kept. -/
theorem integer_texts_agree_negative :
    (Value.string "-007").cast .int ⟨1, 1⟩ = .ok (.int (-7)) ∧
      (Value.int (-7)).cast .string ⟨1, 1⟩ = .ok (.string "-7") ∧
      Value.ofArgument "-007" = .ok (.int (-7)) := by
  have hcast : (Value.string "-007").cast .int ⟨1, 1⟩ = .ok (.int (-7)) := by decide +kernel
  have hdigits : SignedDigits "-007".toList true ['0', '0', '7'] :=
    ⟨⟨['-'], .minus, rfl⟩, List.cons_ne_nil _ _, allDigits_iff.2 (by decide)⟩
  exact ⟨hcast, (integer_texts_agree ⟨1, 1⟩).2.2.2.1 "-007" (-7) true _ hcast hdigits⟩

end FLang
