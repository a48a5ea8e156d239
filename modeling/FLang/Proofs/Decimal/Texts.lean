import FLang.Decimal.Reading
import Mathlib.Data.List.TakeWhile

/-!
# The texts of numbers

Which texts denote a number, as a grammar.

* `SignedDigits` — an optional sign and ASCII digits, the texts of integers (`readInt_eq_int_iff`);
* `IsNumeral` — digits with an optional point among or beside them and an optional exponent, the
  texts of unsigned decimals (`readScientific?_isSome_iff`);
* `IsNumberText` — an optional sign and a numeral or one of the words for what is no finite number,
  with digits of any script, the texts of floats (`readFloat?_isSome_iff`).
-/

namespace FLang.Decimal

/-! ## Signs -/

/-- A sign that may stand before a number, or none; true for a minus. -/
inductive IsSign : List Char → Bool → Prop where
  | missing : IsSign [] false
  | plus : IsSign ['+'] false
  | minus : IsSign ['-'] true

/-- What is split off in front is a sign or nothing. -/
theorem isSign_splitSign (text : List Char) :
    ∃ sign, IsSign sign (splitSign text).1 ∧ text = sign ++ (splitSign text).2 := by
  fun_cases splitSign text with
  | case1 rest => exact ⟨_, .minus, rfl⟩
  | case2 rest => exact ⟨_, .plus, rfl⟩
  | case3 => exact ⟨_, .missing, rfl⟩

/-- A sign is split off from what does not begin with one. -/
theorem IsSign.splitSign_append {sign rest : List Char} {negative : Bool} (h : IsSign sign negative)
    (hminus : rest.head? ≠ some '-') (hplus : rest.head? ≠ some '+') :
    splitSign (sign ++ rest) = (negative, rest) := by
  cases h with
  | plus => rfl
  | minus => rfl
  | missing =>
    rw [List.nil_append, splitSign]
    · rintro rest rfl
      exact hminus rfl
    · rintro rest rfl
      exact hplus rfl

/-! ## Integers -/

/-- Some characters are ASCII digits. -/
def AllDigits (text : List Char) : Prop :=
  ∀ c ∈ text, c.isDigit = true

/-- A text is an optional sign and some digits, at least one. -/
structure SignedDigits (text : List Char) (negative : Bool) (digits : List Char) : Prop where
  /-- The sign stands before the digits. -/
  split : ∃ sign, IsSign sign negative ∧ text = sign ++ digits
  /-- There is a digit. -/
  ne_nil : digits ≠ []
  /-- There are only digits. -/
  allDigits : AllDigits digits

theorem AllDigits.head?_ne {text : List Char} {c : Char} (h : AllDigits text)
    (hc : c.isDigit = false) : text.head? ≠ some c := by
  intro hhead
  rw [h c (List.mem_of_mem_head? hhead)] at hc
  cases hc

/-- A sign and digits are recognized by splitting the sign off. -/
theorem signedDigits_iff {text digits : List Char} {negative : Bool} :
    SignedDigits text negative digits ↔
      splitSign text = (negative, digits) ∧ digits ≠ [] ∧ AllDigits digits := by
  constructor
  · rintro ⟨⟨sign, hsign, rfl⟩, hne, hdigits⟩
    exact ⟨hsign.splitSign_append (hdigits.head?_ne rfl) (hdigits.head?_ne rfl), hne, hdigits⟩
  · rintro ⟨hsplit, hne, hdigits⟩
    refine ⟨?_, hne, hdigits⟩
    simpa only [hsplit] using isSign_splitSign text

theorem allDigits_iff {text : List Char} : AllDigits text ↔ text.all Char.isDigit = true := by
  rw [List.all_eq_true, AllDigits]

/-- **A text denotes an integer if it is an optional sign and at most `digitLimit` digits.** -/
theorem readInt_eq_int_iff {text : String} {n : Int} :
    readInt text = .int n ↔
      ∃ negative digits, SignedDigits text.toList negative digits ∧ digits.length ≤ digitLimit ∧
        n = signed negative (natOfDigits digits) := by
  obtain ⟨negative, digits, hsplit⟩ :
      ∃ negative digits, splitSign text.toList = (negative, digits) := ⟨_, _, rfl⟩
  simp only [signedDigits_iff, hsplit, readInt]
  constructor
  · intro h
    split at h
    · cases h
    next hdigits =>
    split at h
    · cases h
    next hlength =>
    simp only [Bool.or_eq_true, List.isEmpty_iff, Bool.not_eq_true', Bool.not_eq_false,
      not_or] at hdigits
    exact ⟨_, _, ⟨rfl, hdigits.1, allDigits_iff.2 hdigits.2⟩, Nat.le_of_not_gt hlength,
      (IntReading.int.inj h).symm⟩
  · rintro ⟨_, _, ⟨heq, hne, hdigits⟩, hlength, rfl⟩
    cases heq
    simp [hne, allDigits_iff.1 hdigits, Nat.not_lt.2 hlength]

/-! ## Decimals -/

/-- The exponent of a number, or nothing. -/
inductive IsExponent : List Char → Prop where
  | missing : IsExponent []
  | scaled {mark : Char} {text digits : List Char} {negative : Bool} :
      mark = 'e' ∨ mark = 'E' → SignedDigits text negative digits → IsExponent (mark :: text)

/-- An unsigned number: digits, with an optional point among or beside them and an optional
exponent. -/
inductive IsNumeral : List Char → Prop where
  | whole {whole exponent : List Char} :
      whole ≠ [] → AllDigits whole → IsExponent exponent → IsNumeral (whole ++ exponent)
  | pointed {whole fraction exponent : List Char} :
      whole ≠ [] ∨ fraction ≠ [] → AllDigits whole → AllDigits fraction → IsExponent exponent →
      IsNumeral (whole ++ '.' :: (fraction ++ exponent))

/-- An exponent can be read exactly where there is one. -/
theorem readExponent?_isSome_iff {text : List Char} :
    (readExponent? text).isSome = true ↔ IsExponent text := by
  cases text with
  | nil => exact iff_of_true rfl .missing
  | cons mark rest =>
    obtain ⟨negative, digits, hsplit⟩ : ∃ negative digits, splitSign rest = (negative, digits) :=
      ⟨_, _, rfl⟩
    constructor
    · intro h
      simp only [readExponent?, hsplit] at h
      split at h
      · next hmark =>
        split at h
        · next hdigits =>
          simp only [Bool.and_eq_true, Bool.not_eq_true', List.isEmpty_eq_false_iff] at hdigits
          have hsigned := signedDigits_iff.2 ⟨hsplit, hdigits.1, allDigits_iff.2 hdigits.2⟩
          exact .scaled (by simpa using hmark) hsigned
        · cases h
      · cases h
    · rintro (_ | ⟨hmark, hdigits⟩)
      obtain ⟨hsplit, hne, hall⟩ := signedDigits_iff.1 hdigits
      simp [readExponent?, hsplit, hmark, hne, allDigits_iff.1 hall]

/-- A run of digits ends where something else comes next. -/
theorem AllDigits.takeWhile_append {run rest : List Char} (h : AllDigits run)
    (hrest : ∀ c, rest.head? = some c → c.isDigit = false) :
    (run ++ rest).takeWhile Char.isDigit = run ∧ (run ++ rest).dropWhile Char.isDigit = rest := by
  rw [List.takeWhile_append_of_pos h, List.dropWhile_append_of_pos h]
  cases rest with
  | nil => simp
  | cons c rest => simp [hrest c rfl]

theorem allDigits_takeWhile (text : List Char) : AllDigits (text.takeWhile Char.isDigit) := by
  intro c hc
  exact List.mem_takeWhile_imp hc

/-- An exponent starts with neither a digit nor a point, so that it is not taken for a part of the
digits in front of it. -/
theorem IsExponent.head? {text : List Char} (h : IsExponent text) :
    ∀ c, text.head? = some c → c.isDigit = false ∧ c ≠ '.' := by
  rintro c hc
  cases h with
  | missing => cases hc
  | scaled hmark =>
    cases hc
    rcases hmark with rfl | rfl <;> decide

theorem not_isEmpty_and_iff {whole fraction : List Char} :
    ¬ (whole.isEmpty && fraction.isEmpty) = true ↔ whole ≠ [] ∨ fraction ≠ [] := by
  rw [Bool.and_eq_true, List.isEmpty_iff, List.isEmpty_iff, not_and_or]

/-- **A text is read as an unsigned decimal exactly if it is a numeral.** -/
theorem readScientific?_isSome_iff {text : List Char} :
    (readScientific? text).isSome = true ↔ IsNumeral text := by
  constructor
  · intro h
    have hdigits := allDigits_takeWhile text
    have hsplit := List.takeWhile_append_dropWhile (p := Char.isDigit) (l := text)
    simp only [readScientific?] at h
    generalize text.takeWhile Char.isDigit = whole at h hdigits hsplit
    generalize text.dropWhile Char.isDigit = rest at h hsplit
    subst hsplit
    split at h <;> split at h
    · cases h
    · next fraction hne =>
      rw [Option.isSome_map, readExponent?_isSome_iff] at h
      rw [← List.takeWhile_append_dropWhile (p := Char.isDigit) (l := fraction)]
      exact .pointed (not_isEmpty_and_iff.1 hne) hdigits (allDigits_takeWhile _) h
    · cases h
    · next hne =>
      rw [Option.isSome_map, readExponent?_isSome_iff] at h
      exact .whole (by simpa using hne) hdigits h
  · rintro (⟨hne, hwhole, hexponent⟩ | ⟨hne, hwhole, hfraction, hexponent⟩)
    · obtain ⟨htake, hdrop⟩ := hwhole.takeWhile_append fun c hc => (hexponent.head? c hc).1
      simp only [readScientific?, htake, hdrop]
      split
      · -- no exponent begins with a point
        exact absurd rfl (hexponent.head? '.' rfl).2
      · simp [hne, readExponent?_isSome_iff.2 hexponent]
    · next whole fraction exponent =>
      have hpoint : ∀ c, ('.' :: (fraction ++ exponent)).head? = some c → c.isDigit = false := by
        simp
      obtain ⟨htake, hdrop⟩ := hwhole.takeWhile_append hpoint
      obtain ⟨htake', hdrop'⟩ := hfraction.takeWhile_append fun c hc => (hexponent.head? c hc).1
      simp only [readScientific?, htake, hdrop, htake', hdrop']
      rw [if_neg (not_isEmpty_and_iff.2 hne), Option.isSome_map]
      exact readExponent?_isSome_iff.2 hexponent

/-! ## Floats -/

/-- The words for what is not a finite number, in any case. -/
def IsInfiniteWord (text : List Char) : Prop :=
  String.ofList (text.map Char.toLower) ∈ ["inf", "infinity", "nan"]

/-- The text of a number, its digits of any script. -/
def IsNumberText (text : List Char) : Prop :=
  ∃ sign negative body, IsSign sign negative ∧ asciiDigits text = sign ++ body ∧
    (IsInfiniteWord body ∨ IsNumeral body)

/-- A word for what is not a finite number begins with a letter. -/
theorem IsInfiniteWord.head?_ne {text : List Char} {c : Char} (h : IsInfiniteWord text)
    (hc : c.toLower ≠ 'i') (hc' : c.toLower ≠ 'n') : text.head? ≠ some c := by
  intro hhead
  obtain ⟨rest, rfl⟩ := List.head?_eq_some_iff.1 hhead
  simp only [IsInfiniteWord, List.map_cons, List.mem_cons, List.not_mem_nil, or_false] at h
  rcases h with h | h | h <;> replace h := congrArg String.toList h <;>
    rw [String.toList_ofList] at h
  · exact hc (List.cons.inj h).1
  · exact hc (List.cons.inj h).1
  · exact hc' (List.cons.inj h).1

/-- A numeral begins with a digit or a point. -/
theorem IsNumeral.head?_ne {text : List Char} {c : Char} (h : IsNumeral text)
    (hc : c.isDigit = false) (hpoint : c ≠ '.') : text.head? ≠ some c := by
  have hrun {d : Char} {run : List Char} (hdigits : AllDigits (d :: run)) : d ≠ c := by
    rintro rfl
    exact hdigits.head?_ne hc rfl
  cases h with
  | @whole whole exponent hne hwhole =>
    cases whole with
    | nil => exact absurd rfl hne
    | cons d run => simpa using hrun hwhole
  | @pointed whole fraction exponent _ hwhole =>
    cases whole with
    | nil => simpa using hpoint.symm
    | cons d run => simpa using hrun hwhole

/-- **A text is read as a float exactly if it is the text of a number.** -/
theorem readFloat?_isSome_iff {text : String} :
    (readFloat? text).isSome = true ↔ IsNumberText text.toList := by
  have hread {negative : Bool} {body : List Char}
      (hsplit : splitSign (asciiDigits text.toList) = (negative, body)) :
      (readFloat? text).isSome = true ↔ IsInfiniteWord body ∨ IsNumeral body := by
    simp only [readFloat?, hsplit, IsInfiniteWord, Option.isSome_map, List.mem_cons,
      List.not_mem_nil, or_false, Bool.or_eq_true, decide_eq_true_eq]
    split
    · next hword => exact iff_of_true rfl (.inl (or_assoc.1 (.inl hword)))
    next hword =>
    split
    · next hnan => exact iff_of_true rfl (.inl (.inr (.inr hnan)))
    · next hnan =>
      rw [Option.isSome_map, readScientific?_isSome_iff]
      rw [not_or] at hword
      simp [hword, hnan]
  constructor
  · intro h
    obtain ⟨sign, hsign, hsplit⟩ := isSign_splitSign (asciiDigits text.toList)
    exact ⟨sign, _, _, hsign, hsplit, (hread rfl).1 h⟩
  · rintro ⟨sign, negative, body, hsign, hsplit, hbody⟩
    have hhead {c : Char} (hc : c = '-' ∨ c = '+') : body.head? ≠ some c := by
      rcases hbody with hword | hnumeral
      · apply hword.head?_ne <;> rcases hc with rfl | rfl <;> decide
      · apply hnumeral.head?_ne <;> rcases hc with rfl | rfl <;> decide
    have hsigned := hsign.splitSign_append (hhead (.inl rfl)) (hhead (.inr rfl))
    exact (hread (hsplit ▸ hsigned)).2 hbody

/-! ## Digits around a point -/

theorem digitChar_of_isDigit {c : Char} (h : c.isDigit = true) :
    Nat.digitChar (c.toNat - 48) = c := by
  obtain ⟨hlow, hhigh⟩ : 48 ≤ c.toNat ∧ c.toNat ≤ 57 := Char.isDigit_iff_toNat.1 h
  have hchars : ∀ n < 10, Nat.digitChar n = Char.ofNat (n + 48) := by decide
  rw [hchars _ (by omega), Nat.sub_add_cancel hlow, Char.ofNat_toNat]

theorem digitValue?_of_isDigit {c : Char} (h : c.isDigit = true) :
    Text.digitValue? c = some (c.toNat - 48) := by
  obtain ⟨hlow, hhigh⟩ : 48 ≤ c.toNat ∧ c.toNat ≤ 57 := Char.isDigit_iff_toNat.1 h
  obtain ⟨others, hzeros⟩ : ∃ others, Text.decimalZeros = 48 :: others := ⟨_, rfl⟩
  rw [Text.digitValue?, hzeros, List.find?_cons_of_pos, Option.map_some]
  simp only [Bool.and_eq_true, decide_eq_true_eq]
  omega

/-- The ASCII digits stand for themselves. -/
theorem AllDigits.asciiDigits_eq {text : List Char} (h : AllDigits text) :
    asciiDigits text = text := by
  refine (List.map_congr_left fun c hc => ?_).trans (List.map_id text)
  rw [digitValue?_of_isDigit (h c hc), Option.map_some, Option.getD_some,
    digitChar_of_isDigit (h c hc), id]

/-- A word for what is not a finite number has no point. -/
theorem IsInfiniteWord.not_mem_point {text : List Char} (h : IsInfiniteWord text) :
    '.' ∉ text := by
  intro hpoint
  have hlower : '.' ∈ text.map Char.toLower := List.mem_map.2 ⟨'.', hpoint, rfl⟩
  rw [← String.toList_ofList (l := text.map Char.toLower)] at hlower
  simp only [IsInfiniteWord, List.mem_cons, List.not_mem_nil, or_false] at h
  rcases h with h | h | h <;> rw [h] at hlower <;> revert hlower <;> decide

section Pointed

variable {whole fraction : List Char} (hne : whole ≠ []) (hwhole : AllDigits whole)
  (hfraction : AllDigits fraction)
include hwhole hfraction

/-- Digits of the decimal system stay as they are. -/
theorem asciiDigits_pointed :
    asciiDigits (whole ++ '.' :: fraction) = whole ++ '.' :: fraction := by
  have hpoint : asciiDigits ['.'] = ['.'] := by decide
  have hsplit : asciiDigits (whole ++ ['.'] ++ fraction) =
      asciiDigits whole ++ asciiDigits ['.'] ++ asciiDigits fraction := by
    simp only [asciiDigits, List.map_append]
  rw [hwhole.asciiDigits_eq, hfraction.asciiDigits_eq, hpoint] at hsplit
  simpa using hsplit

include hne

/-- Digits around a point are read as one number and the places behind the point. -/
theorem readScientific?_pointed :
    readScientific? (whole ++ '.' :: fraction) =
      some ⟨natOfDigits (whole ++ fraction), -(fraction.length : Int)⟩ := by
  have hpoint : ∀ c, ('.' :: fraction).head? = some c → c.isDigit = false := by simp
  have hend : ∀ c, ([] : List Char).head? = some c → c.isDigit = false := by simp
  obtain ⟨htake, hdrop⟩ := hwhole.takeWhile_append hpoint
  obtain ⟨htake', hdrop'⟩ := hfraction.takeWhile_append hend
  rw [List.append_nil] at htake' hdrop'
  simp only [readScientific?, htake, hdrop, htake', hdrop']
  rw [if_neg (not_isEmpty_and_iff.2 (.inl hne))]
  simp [readExponent?]

/-- **Digits around a point are read as the float nearest to them.** -/
theorem readFloat?_pointed :
    readFloat? (String.ofList (whole ++ '.' :: fraction)) =
      some (toFloat ⟨natOfDigits (whole ++ fraction), -(fraction.length : Int)⟩) := by
  have hnumeral : IsNumeral (whole ++ '.' :: (fraction ++ [])) :=
    .pointed (.inl hne) hwhole hfraction .missing
  rw [List.append_nil] at hnumeral
  have hsign : splitSign (whole ++ '.' :: fraction) = (false, whole ++ '.' :: fraction) :=
    IsSign.missing.splitSign_append (hnumeral.head?_ne (by decide) (by decide))
      (hnumeral.head?_ne (by decide) (by decide))
  have hword : ¬ IsInfiniteWord (whole ++ '.' :: fraction) := fun h => h.not_mem_point (by simp)
  have hascii := asciiDigits_pointed hwhole hfraction
  have hread := readScientific?_pointed hne hwhole hfraction
  generalize whole ++ '.' :: fraction = text at *
  simp only [IsInfiniteWord, List.mem_cons, List.not_mem_nil, or_false, not_or] at hword
  simp [readFloat?, hascii, hsign, hword, hread]

end Pointed

end FLang.Decimal
