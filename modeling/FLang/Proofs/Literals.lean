import FLang.Proofs.Decimal.Shortest
import FLang.Proofs.Lexing.LongestMatch
import FLang.Proofs.RoundTrip

/-!
# Float literals are read back

A float that stands in a program is printed with digits that are read as the float again, but for
one float: `9223372036854775807.0` is within the limit on integers and rounds up to `2 ^ 63`, whose
digits before the point are not (`float_literals_read_back`).

* `positional_splits`: the text of a decimal is digits, a point and digits, of the same value;
* `isLiteral_of_parse`: a float of a program is what digits around a point were converted into, so
  that it is at most `2 ^ 63` (`IsLiteral.exists_denotes`);
* `readsBack_of_lt`: a smaller float is printed with digits between the midpoints around it, which
  are converted into the float again, and whose number before the point is within the limit.
-/

namespace FLang

open Lexer

/-! ## The text of a decimal -/

/-- The value in units of the last place. -/
theorem value_mul_cancel (n k : Nat) :
    Decimal.Scientific.value ⟨n, -(k : Int)⟩ * 10 ^ k = n := by
  rw [Decimal.Scientific.value, zpow_neg, zpow_natCast]
  exact inv_mul_cancel_right₀ (by positivity) _

/-- The text of a decimal: digits, a point and digits. -/
structure IsPointed (s : Decimal.Scientific) (whole fraction : List Char) : Prop where
  /-- The point is between the digits. -/
  text : s.positional = whole ++ '.' :: fraction
  /-- There are digits before it. -/
  nonempty : whole ≠ []
  /-- Nothing else stands before it. -/
  whole_digits : ∀ c ∈ whole, c.isDigit = true
  /-- Nothing else stands behind it. -/
  fraction_digits : ∀ c ∈ fraction, c.isDigit = true
  /-- They have the value of the decimal. -/
  value : (Decimal.natOfDigits (whole ++ fraction) : ℚ) = s.value * 10 ^ fraction.length
  /-- The digits behind the point are among those of the decimal. -/
  fraction_le : Decimal.natOfDigits fraction ≤ s.digits

/-- The digits, read as a decimal again. -/
theorem IsPointed.value_eq {s : Decimal.Scientific} {whole fraction : List Char}
    (h : IsPointed s whole fraction) :
    Decimal.Scientific.value
      ⟨Decimal.natOfDigits (whole ++ fraction), -(fraction.length : Int)⟩ = s.value := by
  have hten : (10 : ℚ) ^ fraction.length ≠ 0 := by positivity
  refine mul_right_cancel₀ hten ?_
  rw [value_mul_cancel, h.value]

section Positional

variable (n k : Nat)

theorem isDigit_of_mem_zeros : ∀ c ∈ List.replicate n '0', c.isDigit = true := by
  intro c hc
  rw [List.eq_of_mem_replicate hc]
  decide

/-- Zeros stand between the digits and the point. -/
theorem isPointed_whole :
    IsPointed ⟨n, k⟩ (Decimal.natDigits n ++ List.replicate k '0') ['0'] := by
  have hzero : Decimal.natOfDigits ['0'] = 0 := by decide
  refine ⟨?_, ?_, ?_, isDigit_of_mem_zeros 1, ?_, ?_⟩
  · simp [Decimal.Scientific.positional, Decimal.pointed, natDigits_ne_nil]
  · simp [natDigits_ne_nil]
  · exact List.forall_mem_append.2 ⟨fun _ => isDigit_of_mem_natDigits, isDigit_of_mem_zeros k⟩
  · rw [natOfDigits_append, natOfDigits_append, natOfDigits_zeros, natOfDigits_natDigits, hzero,
      Decimal.Scientific.value, zpow_natCast]
    simp
  · exact hzero.trans_le (Nat.zero_le _)

variable {n k}

/-- The point stands among the digits. -/
theorem isPointed_split (hk : 0 < k) (hlength : k < (Decimal.natDigits n).length) :
    IsPointed ⟨n, -(k : Int)⟩ ((Decimal.natDigits n).take ((Decimal.natDigits n).length - k))
      ((Decimal.natDigits n).drop ((Decimal.natDigits n).length - k)) := by
  have htext : Decimal.Scientific.positional ⟨n, -(k : Int)⟩ =
      Decimal.pointed ((Decimal.natDigits n).take ((Decimal.natDigits n).length - k))
        ((Decimal.natDigits n).drop ((Decimal.natDigits n).length - k)) := by
    simp only [Decimal.Scientific.positional, Int.neg_neg, Int.toNat_natCast]
    rw [if_neg (by omega), if_pos hlength]
  have hvalue := natOfDigits_natDigits n
  have hdigits : ∀ c ∈ Decimal.natDigits n, c.isDigit = true := fun _ => isDigit_of_mem_natDigits
  rw [← List.take_append_drop ((Decimal.natDigits n).length - k) (Decimal.natDigits n)]
    at hvalue hdigits
  have hwhole : ((Decimal.natDigits n).take ((Decimal.natDigits n).length - k)).length =
      (Decimal.natDigits n).length - k := by simp
  have hfraction : ((Decimal.natDigits n).drop ((Decimal.natDigits n).length - k)).length = k := by
    rw [List.length_drop]
    omega
  generalize (Decimal.natDigits n).take _ = whole at *
  generalize (Decimal.natDigits n).drop _ = fraction at *
  have hwhole' : whole ≠ [] := List.length_pos_iff.1 (by omega)
  have hfraction' : fraction ≠ [] := List.length_pos_iff.1 (by omega)
  refine ⟨?_, hwhole', (List.forall_mem_append.1 hdigits).1, (List.forall_mem_append.1 hdigits).2,
    ?_, ?_⟩
  · simp [htext, Decimal.pointed, hwhole', hfraction']
  · rw [hvalue, hfraction, value_mul_cancel]
  · rw [natOfDigits_append] at hvalue
    exact hvalue ▸ Nat.le_add_left ..

/-- Zeros stand between the point and the digits. -/
theorem isPointed_fraction (hk : 0 < k) (hlength : (Decimal.natDigits n).length ≤ k) :
    IsPointed ⟨n, -(k : Int)⟩ ['0']
      (List.replicate (k - (Decimal.natDigits n).length) '0' ++ Decimal.natDigits n) := by
  have hsame : Decimal.natOfDigits (List.replicate (k - (Decimal.natDigits n).length) '0' ++
      Decimal.natDigits n) = n := by
    rw [natOfDigits_append, natOfDigits_zeros, natOfDigits_natDigits, Nat.zero_mul, Nat.zero_add]
  have hfraction : (List.replicate (k - (Decimal.natDigits n).length) '0' ++
      Decimal.natDigits n).length = k := by
    rw [List.length_append, List.length_replicate]
    omega
  refine ⟨?_, by simp, isDigit_of_mem_zeros 1, ?_, ?_, hsame.le⟩
  · simp only [Decimal.Scientific.positional, Int.neg_neg, Int.toNat_natCast]
    rw [if_neg (by omega), if_neg (by omega)]
    simp [Decimal.pointed, natDigits_ne_nil]
  · exact List.forall_mem_append.2 ⟨isDigit_of_mem_zeros _, fun _ => isDigit_of_mem_natDigits⟩
  · have hzero : Decimal.natOfDigits ['0'] = 0 := by decide
    rw [natOfDigits_append, hzero, Nat.zero_mul, Nat.zero_add, hsame, hfraction, value_mul_cancel]

/-- **A decimal is written as digits around a point**, of the same value. -/
theorem positional_splits (s : Decimal.Scientific) :
    ∃ whole fraction, IsPointed s whole fraction := by
  obtain ⟨n, e⟩ := s
  rcases lt_or_ge e 0 with hneg | hnonneg
  · obtain ⟨k, rfl⟩ : ∃ k : Nat, e = -k := ⟨e.natAbs, by omega⟩
    rcases Nat.lt_or_ge k (Decimal.natDigits n).length with hlength | hlength
    · exact ⟨_, _, isPointed_split (by omega) hlength⟩
    · exact ⟨_, _, isPointed_fraction (by omega) hlength⟩
  · obtain ⟨k, rfl⟩ : ∃ k : Nat, e = k := ⟨e.natAbs, by omega⟩
    exact ⟨_, _, isPointed_whole n k⟩

end Positional

/-! ## The floats of a program -/

variable {limits : Limits}

/-- A float that digits around a point, within the limits, are converted into. -/
def IsLiteral (limits : Limits) (x : Float) : Prop :=
  ∃ whole fraction, IsDigits limits whole ∧ IsDigits limits fraction ∧
    x = Decimal.toFloat ⟨Decimal.natOfDigits (whole ++ fraction), -(fraction.length : Int)⟩

theorem Lexical.isLiteral {text : List Char} {l : Lexeme} {continues : Char → Bool}
    (h : Lexical limits text l continues) {x : Float} (hl : l = .constant (.float x)) :
    IsLiteral limits x := by
  cases h with
  | float _ hwhole hfraction =>
    cases hl
    exact ⟨_, _, hwhole, hfraction, rfl⟩
  | pair h =>
    subst hl
    cases isSymbol_of_ofPair? h
  | single h =>
    subst hl
    cases isSymbol_of_ofChar? h
  | word _ => exact absurd hl ((Lexeme.ofWord_ne _).1 x)
  | _ => cases hl

/-- Every token of a text that is split has characters. -/
theorem Splits.lexical_of_mem {before rest : List Char} {tokens : List Token}
    (h : Splits limits before rest tokens) {token : Token} (ht : token ∈ tokens)
    (hne : token.lexeme ≠ .endOfInput) :
    ∃ text continues, Lexical limits text token.lexeme continues := by
  induction h with
  | finish _ =>
    obtain rfl := List.mem_singleton.1 ht
    exact absurd rfl hne
  | token _ hlexical _ _ ih =>
    rcases List.mem_cons.1 ht with rfl | ht
    · exact ⟨_, _, hlexical⟩
    · exact ih ht

/-- **The floats of a program are literals of its source.** -/
theorem isLiteral_of_parse {source : String} {program : Program}
    (h : parse limits source = .ok program) {x : Float} (hx : .float x ∈ program.constants) :
    IsLiteral limits x := by
  obtain ⟨tokens, hstream⟩ := tokenize_of_parse h
  have hsplits : Splits limits [] (sourceChars source.toList) tokens :=
    splits_of_tokenStreamFrom (c := .ofText source) (Nat.lt_succ_self _) rfl hstream
  obtain ⟨ts, hphrase, -, hts⟩ := derived_from_tokens h
  rw [hstream] at hts
  have hsymbol : ∀ l : Lexeme, l.isSymbol = true → ∀ y, l = .constant (.float y) →
      IsLiteral limits y := by
    rintro l hl y rfl
    cases hl
  have hcarry := functions_carry hsymbol hphrase fun t ht y hy => by
    obtain ⟨htoken, hne, -⟩ := hts t ht
    obtain ⟨text, continues, hlexical⟩ := hsplits.lexical_of_mem htoken hne
    exact hlexical.isLiteral hy
  obtain ⟨f, hf, hconstant⟩ := List.mem_flatMap.1 hx
  obtain ⟨l, hl, hliteral⟩ := List.mem_filterMap.1 hconstant
  refine hcarry f hf l hl x ?_
  cases l with
  | constant value => exact congrArg _ (Option.some.inj hliteral)
  | _ => cases hliteral

/-! ## Reading back -/

open Decimal

/-- The limit on integers is just below a double. -/
theorem two_pow_eq_double : (2 : ℚ) ^ 63 = (2 ^ 52 : Nat) * 2 ^ (11 : Int) := by
  norm_num

theorem exponent_le_of_le {m : Nat} {e : Int} (hm : Canonical m e)
    (h : (m : ℚ) * 2 ^ e ≤ 2 ^ 63) : e ≤ 11 :=
  hm.exponent_le (by decide) (by decide) (two_pow_eq_double ▸ h)

/-- A decimal below `2 ^ 63` is not decided by the number of its digits. -/
theorem power_le {n k : Nat} (h : n < 2 ^ 63 * 10 ^ k) :
    -(k : Int) + (natDigits n).length ≤ 310 := by
  have hlt : n < 10 ^ (19 + k) := by
    rw [Nat.pow_add]
    exact h.trans (Nat.mul_lt_mul_of_pos_right (by decide) (Nat.pow_pos (by decide)))
  have hlength := length_natDigits_le hlt (by omega)
  omega

/-- The limit on integers lets a literal round up to `2 ^ 63` and not further. -/
theorem IsLiteral.exists_denotes {x : Float} (h : IsLiteral {} x) :
    ∃ w u, w ≤ 2 ^ 63 ∧ Denotes w u ∧ x = ⟨.pack u⟩ := by
  obtain ⟨whole, fraction, hwhole, hfraction, rfl⟩ := h
  have hlimit : natOfDigits whole + 1 ≤ 2 ^ 63 := Nat.succ_le_succ hwhole.small
  have hfraction' := natOfDigits_lt hfraction.digits
  have hlt : natOfDigits (whole ++ fraction) < 2 ^ 63 * 10 ^ fraction.length := by
    rw [natOfDigits_append, Nat.pow_eq]
    have := Nat.mul_le_mul_right (10 ^ fraction.length) hlimit
    rw [Nat.add_mul] at this
    omega
  obtain ⟨w, u, hrounds, hdenotes, hx⟩ := toFloat_rounds
    (s := ⟨natOfDigits (whole ++ fraction), -(fraction.length : Int)⟩) (power_le hlt)
  have hten : (0 : ℚ) < 10 ^ fraction.length := by positivity
  have hvalue : Scientific.value ⟨natOfDigits (whole ++ fraction), -(fraction.length : Int)⟩ ≤
      2 ^ 63 := by
    refine le_of_mul_le_mul_right ?_ hten
    rw [value_mul_cancel]
    exact_mod_cast hlt.le
  refine ⟨w, u, ?_, hdenotes, hx⟩
  rw [two_pow_eq_double] at hvalue ⊢
  exact hrounds.le_double (by decide) (by decide) hvalue

/-- Half a spacing above a double below `2 ^ 63` is still below it. -/
theorem midpoint_lt {m : Nat} {e : Int} (hm : Canonical m e) (h : (m : ℚ) * 2 ^ e < 2 ^ 63) :
    ((m : ℚ) + 1 / 2) * 2 ^ e < 2 ^ 63 := by
  have hunit := two_zpow_pos e
  have he := exponent_le_of_le hm h.le
  obtain ⟨k, hk⟩ : ∃ k : Nat, ((63 : Nat) : Int) = e + k := ⟨(63 - e).toNat, by omega⟩
  have hpow : (2 : ℚ) ^ 63 = (2 ^ k : Nat) * 2 ^ e := by
    rw [← zpow_natCast, hk, two_zpow_eq_mul]
    push_cast
    rfl
  rw [hpow] at h ⊢
  have hlt : m < 2 ^ k := by exact_mod_cast lt_of_mul_lt_mul_right h hunit.le
  have hle : (m : ℚ) + 1 ≤ (2 ^ k : Nat) := by exact_mod_cast hlt
  exact mul_lt_mul_of_pos_right (by linarith) hunit

/-- Digits around a point are read as the float that they are converted into. -/
theorem readsBack_of_digits {x : Float} {whole fraction : List Char} (hne : whole ≠ [])
    (hwhole : IsDigits {} whole) (hfraction : IsDigits {} fraction)
    (htext : (Printer.floatLiteral x).toList = whole ++ '.' :: fraction)
    (hx : toFloat ⟨natOfDigits (whole ++ fraction), -(fraction.length : Int)⟩ = x) :
    ReadsBack {} x := by
  have hsource : sourceChars (Printer.floatLiteral x).toList = whole ++ '.' :: fraction := by
    have hkept := sourceChars_floatLiteral_append x []
    rw [List.append_nil, sourceChars, List.append_nil] at hkept
    rw [hkept, htext]
  have hlexical : Lexical {} (whole ++ '.' :: fraction) (.constant (.float x)) Char.isDigit := by
    rw [← hx]
    exact .float hne hwhole hfraction
  have hgap : IsGap [] := by simp [IsGap]
  have hstops : Stops Char.isDigit [] := by simp [Stops]
  have hsplits : Splits {} [] ([] ++ (whole ++ '.' :: fraction) ++ []) [_, _] :=
    .token hgap hlexical hstops (.finish hgap)
  rw [List.nil_append, List.append_nil, ← hsource] at hsplits
  have hstream : tokenStream {} (Printer.floatLiteral x) = ⟨_, none⟩ :=
    hsplits.tokenStreamFrom_eq (by decide +kernel) _ (Nat.lt_succ_self _)
  simp [ReadsBack, tokenize, hstream, Except.map]

/-- A double is printed with its shortest digits. -/
theorem floatLiteral_double {m : Nat} {e : Int} (hm : Canonical m e) (he : e ≤ 971) :
    (Printer.floatLiteral (double hm)).toList = (shortest m e).positional := by
  rw [Printer.floatLiteral, Layout.write, shape_double hm he]
  exact String.toList_ofList

/-- **A float below `2 ^ 63` is read back.** -/
theorem readsBack_of_lt {m : Nat} {e : Int} (hm : Canonical m e) (h : (m : ℚ) * 2 ^ e < 2 ^ 63) :
    ReadsBack {} (double hm) := by
  have he : e ≤ 971 := (exponent_le_of_le hm h.le).trans (by decide)
  obtain ⟨hbetween, hdigits⟩ := shortest_between hm he
  obtain ⟨whole, fraction, hs⟩ := positional_splits (shortest m e)
  have hten : (0 : ℚ) < 10 ^ fraction.length := by positivity
  have hlt : (shortest m e).value < 2 ^ 63 := hbetween.le.trans_lt (midpoint_lt hm h)
  have htotal : natOfDigits (whole ++ fraction) < 2 ^ 63 * 10 ^ fraction.length := by
    have hscaled := mul_lt_mul_of_pos_right hlt hten
    rw [← hs.value] at hscaled
    exact_mod_cast hscaled
  have hwhole : natOfDigits whole < 2 ^ 63 := by
    rw [natOfDigits_append, Nat.pow_eq] at htotal
    exact Nat.lt_of_mul_lt_mul_right (Nat.lt_of_le_of_lt (Nat.le_add_right ..) htotal)
  refine readsBack_of_digits hs.nonempty ⟨hs.whole_digits, Nat.le_of_lt_succ hwhole⟩
    ⟨hs.fraction_digits, ?_⟩ ((floatLiteral_double hm he).trans hs.text)
    (toFloat_of_between hm (power_le htotal) (hs.value_eq ▸ hbetween))
  exact (hs.fraction_le.trans hdigits).trans (by decide)

/-! ## The float that is lost -/

/-- The least float whose digits are beyond the limit on integers. -/
def firstBeyond : Float := 9223372036854775808.0

theorem canonical_firstBeyond : Canonical (2 ^ 52) 11 :=
  ⟨by decide, by decide, by decide, .inl (le_refl _)⟩

theorem double_firstBeyond : double canonical_firstBeyond = firstBeyond := by
  decide +kernel

theorem tokenize_firstBeyond : tokenize {} (Printer.floatLiteral firstBeyond) =
    .error (.lexical .start .intCapacityExceeded) := by
  decide +kernel

theorem readsBack_zero : ReadsBack {} 0.0 := by
  unfold ReadsBack
  decide +kernel

/-- **The floats of a program are read back, all but one.** The text of a float that a program was
read with is read, within the same limits, as this float and nothing else, unless the float is
`2 ^ 63`: the digits of this one are beyond the limit on integers, and that is the error. -/
theorem float_literals_read_back {source : String} {program : Program}
    (h : parse {} source = .ok program) {x : Float} (hx : .float x ∈ program.constants) :
    (x ≠ firstBeyond → ReadsBack {} x) ∧
      (x = firstBeyond → tokenize {} (Printer.floatLiteral x) =
        .error (.lexical .start .intCapacityExceeded)) := by
  refine ⟨fun hne => ?_, fun heq => heq ▸ tokenize_firstBeyond⟩
  obtain ⟨w, u, hw, hdenotes, rfl⟩ := (isLiteral_of_parse h hx).exists_denotes
  cases u with
  | infinity => exact hdenotes.elim
  | notANumber => exact hdenotes.elim
  | zero =>
    obtain ⟨rfl, -⟩ := hdenotes
    exact readsBack_zero
  | finite sign m e hm =>
    obtain ⟨rfl, hcanonical, rfl⟩ := hdenotes
    -- at most `2 ^ 63`, and not `2 ^ 63` itself
    refine readsBack_of_lt hcanonical (hw.lt_of_ne fun heq => hne ?_)
    obtain ⟨rfl, rfl⟩ := hcanonical.unique canonical_firstBeyond (heq.trans two_pow_eq_double)
    exact double_firstBeyond

/-- A text with a float that has no finite binary digits, and with the largest float below `2 ^ 63`,
whose shortest digits are not those of the text. -/
def nearLimitSource : String :=
  "main() float \x7b return 0.1 + 9223372036854775295.0 \x7d"

theorem float_literals_read_back_nearLimitSource :
    ∃ program, parse {} nearLimitSource = .ok program ∧
      .float 9223372036854774784.0 ∈ program.constants ∧ ReadsBack {} 9223372036854774784.0 := by
  have hsource : (parse {} nearLimitSource).map Program.constants =
      .ok [.float 0.1, .float 9223372036854774784.0] := by
    decide +kernel
  cases hparse : parse {} nearLimitSource with
  | error fault =>
    rw [hparse] at hsource
    cases hsource
  | ok program =>
    rw [hparse] at hsource
    have hconstants : program.constants = [.float 0.1, .float 9223372036854774784.0] :=
      Except.ok.inj hsource
    have hmem : .float 9223372036854774784.0 ∈ program.constants := by
      rw [hconstants]
      exact .tail _ (.head _)
    exact ⟨program, rfl, hmem, (float_literals_read_back hparse hmem).1 (by decide +kernel)⟩

/-- The largest integer, written as a float, is read as `2 ^ 63`, which is not read back. -/
theorem largest_integer_not_read_back :
    ∃ program, parse {} "main() float \x7b return 9223372036854775807.0 \x7d" = .ok program ∧
      .float firstBeyond ∈ program.constants ∧ ¬ ReadsBack {} firstBeyond := by
  have hsource : (parse {} "main() float \x7b return 9223372036854775807.0 \x7d").map
      Program.constants = .ok [.float firstBeyond] := by
    decide +kernel
  cases hparse : parse {} "main() float \x7b return 9223372036854775807.0 \x7d" with
  | error fault =>
    rw [hparse] at hsource
    cases hsource
  | ok program =>
    rw [hparse] at hsource
    have hconstants : program.constants = [.float firstBeyond] := Except.ok.inj hsource
    refine ⟨program, rfl, hconstants ▸ .head _, fun hread => ?_⟩
    rw [ReadsBack, tokenize_firstBeyond] at hread
    cases hread

end FLang
