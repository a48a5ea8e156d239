import FLang.Proofs.Decimal.Conversion

/-!
# Whole numbers in the range of floats

A whole number is in the range of floats if rounding does not carry it beyond the largest double.
The doubles next to that one would be `2 ^ 971` apart, and half-way the even side is the one beyond,
so the first number that is too large is half a spacing from the largest double: `overflow`.

* `Rounds.le_largest`, `Rounds.two_pow_le` — what is rounded to a double, and what goes beyond;
* `Denotes.unpack_pack_overflow` — what goes beyond becomes infinite when it is packed;
* `intToFloat?_eq_none_iff` — so the conversion of integers fails exactly from `overflow` on.

The text of an integer is limited as well, by the number of its digits (`intText?_eq_none_iff`).
-/

namespace FLang.Decimal

open Float.Model Float.Model.UnpackedFloat

/-- The first whole number that is too large for a float. -/
def overflow : Nat :=
  2 ^ 1024 - 2 ^ 970

/-- The bound of what rounds to a double is half a step above the largest one. -/
theorem overflow_eq : (overflow : ℚ) = (2 ^ 53 - 1 / 2) * 2 ^ (971 : Int) := by
  have hsplit : overflow * 2 = (2 ^ 54 - 1) * 2 ^ 971 := by decide +kernel
  have hdigits : ((2 ^ 54 - 1 : Nat) : ℚ) = 2 * (2 ^ 53 - 1 / 2) := by norm_num
  have hcast := congrArg (Nat.cast : Nat → ℚ) hsplit
  have hpow : ((2 ^ 971 : Nat) : ℚ) = 2 ^ (971 : Int) := Nat.cast_pow 2 971
  rw [Nat.cast_mul, Nat.cast_mul, hdigits, hpow, Nat.cast_ofNat] at hcast
  linarith

/-! ## Rounding near the largest double -/

/-- The largest double has all its digits and the largest exponent. -/
theorem canonical_largest : Canonical (2 ^ 53 - 1) 971 :=
  ⟨by decide, by decide, by decide, .inl (by decide)⟩

/-- What is less than half a spacing beyond the largest double is not rounded past it. -/
theorem Rounds.le_largest {v w : ℚ} (h : Rounds v w) (hv : v < overflow) : w ≤ largest := by
  rw [overflow_eq] at hv
  have hdigits : ((2 ^ 53 - 1 : Nat) : ℚ) = 2 ^ 53 - 1 := by norm_num
  have hunit := two_zpow_pos 971
  rcases le_or_gt v largest with hle | hgt
  · exact h.le_double (by decide) (by decide) hle
  · simp only [largest, hdigits] at hgt
    refine (h.eq_of_between canonical_largest ⟨?_, ?_, ?_, ?_⟩).le <;>
      simp only [hdigits] <;> generalize (2 : ℚ) ^ (971 : Int) = unit at *
    · linarith
    · intro hdense
      exact absurd hdense (by decide)
    · linarith
    · rintro (heq | heq) <;> linarith

theorem two_le_two_pow_succ (k : Nat) : (2 : ℚ) ≤ 2 ^ (k + 1) := by
  calc (2 : ℚ) = 2 ^ 1 := (pow_one 2).symm
    _ ≤ 2 ^ (k + 1) := pow_le_pow_right₀ (by norm_num) (by omega)

/-- Above the bound, steps are as wide as those of the largest double, or wider. -/
theorem Spacing.exponent_ge_of_overflow {v : ℚ} {e : Int} (h : Spacing v e) (hv : overflow ≤ v) :
    971 ≤ e := by
  by_contra hlt
  obtain ⟨k, hk⟩ : ∃ k : Nat, (971 : Int) = e + (k + 1 : Nat) := ⟨(971 - e - 1).toNat, by omega⟩
  have hlow : (2 ^ 53 - 1 / 2 : ℚ) * 2 ^ (971 : Int) < 2 ^ 53 * 2 ^ e :=
    (overflow_eq ▸ hv).trans_lt h.lt
  rw [hk, two_zpow_eq_mul, ← mul_assoc] at hlow
  have hless := lt_of_mul_lt_mul_right hlow (two_zpow_pos e).le
  linarith [two_le_two_pow_succ k]

/-- Half-way between `2 ^ 53 - 1` and `2 ^ 53`, the nearest even number is the larger one. -/
theorem Nearest.two_pow_le {w : ℚ} {n : Nat} (h : Nearest w n) (hw : 2 ^ 53 - 1 / 2 ≤ w) :
    2 ^ 53 ≤ n := by
  by_contra hsmall
  have hle : (n : ℚ) ≤ 2 ^ 53 - 1 := by
    have hn : n ≤ 2 ^ 53 - 1 := by omega
    calc (n : ℚ) ≤ (2 ^ 53 - 1 : Nat) := by exact_mod_cast hn
      _ = 2 ^ 53 - 1 := by norm_num
  -- only the tie is left, and there the number would be odd
  have htie : w = n + 1 / 2 := by linarith [h.ge]
  have hodd : (n : ℚ) = (2 ^ 53 - 1 : Nat) := by
    push_cast
    linarith [h.ge]
  obtain rfl : n = 2 ^ 53 - 1 := by exact_mod_cast hodd
  exact absurd (h.even (.inr htie)) (by decide)

/-- From half a spacing beyond the largest double on, rounding goes to where the next would be. -/
theorem Rounds.two_pow_le {v w : ℚ} (h : Rounds v w) (hv : overflow ≤ v) :
    2 ^ 53 * 2 ^ (971 : Int) ≤ w := by
  obtain ⟨e, n, hspacing, hnearest, rfl⟩ := h
  have hunit := two_zpow_pos e
  rcases (hspacing.exponent_ge_of_overflow hv).eq_or_lt with rfl | hlt
  · have hge : (2 ^ 53 - 1 / 2 : ℚ) ≤ v / 2 ^ (971 : Int) :=
      (le_div_iff₀ hunit).2 (overflow_eq ▸ hv)
    have hn := hnearest.two_pow_le hge
    exact mul_le_mul_of_nonneg_right (by exact_mod_cast hn) hunit.le
  · -- a wider spacing: already the least mantissa reaches that far
    obtain ⟨k, rfl⟩ : ∃ k : Nat, e = 971 + (k + 1 : Nat) := ⟨(e - 971 - 1).toNat, by omega⟩
    have hge := hspacing.ge.resolve_right (by omega)
    have hn : 2 ^ 52 ≤ n := by
      apply hnearest.ge_of_ge
      rw [le_div_iff₀ hunit]
      exact_mod_cast hge
    have hn' : (2 ^ 52 : ℚ) ≤ n := by exact_mod_cast hn
    rw [two_zpow_eq_mul, ← mul_assoc]
    refine mul_le_mul_of_nonneg_right ?_ (two_zpow_pos 971).le
    calc (2 ^ 53 : ℚ) = 2 ^ 52 * 2 := by norm_num
      _ ≤ (n : ℚ) * 2 ^ (k + 1) :=
        mul_le_mul hn' (two_le_two_pow_succ k) (by norm_num) (by linarith)

/-! ## Packing -/

/-- With a larger exponent, what is packed is an infinity. -/
theorem unpack_pack_overflow {m : Nat} {e : Int} (hm : 0 < m) (he : 971 < e) :
    unpack .binary64 (UnpackedFloat.pack .binary64 (.finite .positive m e hm)) =
      .infinity .positive := by
  have hbias : Format.binary64.exponentBias = 1023 := by decide
  have hlarge : 2 ^ 11 ≤ (e + (1023 : Nat) + (52 : Nat)).toNat + 1 := by omega
  simp only [UnpackedFloat.pack, hbias]
  rw [if_pos hlarge]
  rfl

/-- **A double beyond the largest one becomes infinite when it is packed.** -/
theorem Denotes.unpack_pack_overflow {w : ℚ} {x : UnpackedFloat} (h : Denotes w x)
    (hw : 2 ^ 53 * 2 ^ (971 : Int) ≤ w) : (Float.Model.pack x).unpack = .infinity .positive := by
  have hpos : (0 : ℚ) < 2 ^ 53 * 2 ^ (971 : Int) := mul_pos (by norm_num) (two_zpow_pos 971)
  cases x with
  | infinity => exact h.elim
  | notANumber => exact h.elim
  | zero =>
    obtain ⟨-, rfl⟩ := h
    exact absurd hpos hw.not_gt
  | finite sign m e hm =>
    obtain ⟨rfl, hcanonical, rfl⟩ := h
    apply Decimal.unpack_pack_overflow hm
    by_contra hle
    have hm53 : (m : ℚ) < 2 ^ 53 := by exact_mod_cast hcanonical.lt
    have hpow : (2 : ℚ) ^ e ≤ 2 ^ (971 : Int) := zpow_le_zpow_right₀ (by norm_num) (by omega)
    have hlt : (m : ℚ) * 2 ^ e < 2 ^ 53 * 2 ^ (971 : Int) :=
      mul_lt_mul hm53 hpow (two_zpow_pos e) (by norm_num)
    exact absurd hlt hw.not_gt

theorem Denotes.not_isInf {w : ℚ} {x : Float.Model.UnpackedFloat} (h : Denotes w x) :
    x.isInf = false := by
  cases x with
  | infinity => exact h.elim
  | _ => rfl

/-! ## Whole numbers -/

/-- **A whole number is rounded to infinity exactly from `overflow` on.** -/
theorem toFloat_isInf_iff {n : Nat} : (toFloat ⟨n, 0⟩).isInf = true ↔ overflow ≤ n := by
  have hvalue : (⟨n, 0⟩ : Scientific).value = n := by simp [Scientific.value]
  rcases Nat.lt_or_ge 310 (natDigits n).length with hlong | hshort
  · -- a long number is decided by the number of its digits
    have hlarge : overflow ≤ n := by
      refine Nat.le_trans (by decide +kernel : overflow ≤ 10 ^ 310) ?_
      by_contra hlt
      exact absurd (length_natDigits_le (Nat.lt_of_not_le hlt) (by decide)) (Nat.not_le.2 hlong)
    have hne : n ≠ 0 := by
      rintro rfl
      exact absurd hlarge (by decide +kernel)
    have hpower : (0 : Int) + (natDigits n).length > 310 := by omega
    simp only [toFloat, if_neg hne, if_pos hpower]
    exact iff_of_true (by decide +kernel) hlarge
  · obtain ⟨w, u, hrounds, hdenotes, hx⟩ := toFloat_rounds (s := ⟨n, 0⟩) (by simp; omega)
    have hinf : (⟨.pack u⟩ : Float).isInf = (Float.Model.pack u).unpack.isInf := rfl
    rw [hvalue] at hrounds
    rw [hx, hinf]
    rcases Nat.lt_or_ge n overflow with hlt | hge
    · have hw := hrounds.le_largest (by exact_mod_cast hlt)
      rw [hdenotes.unpack_pack hw, hdenotes.not_isInf]
      exact iff_of_false (by decide) (Nat.not_le.2 hlt)
    · have hw := hrounds.two_pow_le (by exact_mod_cast hge)
      rw [hdenotes.unpack_pack_overflow hw]
      exact iff_of_true rfl hge

/-- **An integer has no nearest float exactly if its magnitude is `overflow` or more.** -/
theorem intToFloat?_eq_none_iff {n : Int} : intToFloat? n = none ↔ overflow ≤ n.natAbs := by
  rw [← toFloat_isInf_iff, intToFloat?]
  by_cases hinf : (toFloat ⟨n.natAbs, 0⟩).isInf = true
  · simp [hinf]
  · simp [hinf]

theorem intToFloat?_of_lt_overflow {n : Nat} (h : n < overflow) :
    intToFloat? n = some (toFloat ⟨n, 0⟩) := by
  have hinf : (toFloat ⟨n, 0⟩).isInf = false :=
    Bool.eq_false_iff.2 fun hinf => absurd (toFloat_isInf_iff.1 hinf) (Nat.not_le.2 h)
  have hsign : ¬ (n : Int) < 0 := by omega
  simp only [intToFloat?, Int.natAbs_natCast, hinf, Bool.false_eq_true, if_false, if_neg hsign]

/-- **A natural number below `10 ^ 308` is in the range of floats.** -/
theorem intToFloat?_of_lt {n : Nat} (h : n < 10 ^ 308) :
    intToFloat? n = some (toFloat ⟨n, 0⟩) :=
  intToFloat?_of_lt_overflow (h.trans (by decide +kernel))

/-! ## Integers that have a text -/

/-- Every integer that has no text is too large for a float. -/
theorem overflow_le_ten_pow : overflow ≤ 10 ^ digitLimit := by decide +kernel

/-- An integer does not fit if it has more digits than the limit. -/
theorem fits_eq_false_iff {n : Int} : fits n = false ↔ 10 ^ digitLimit ≤ n.natAbs := by
  rw [fits, decide_eq_false_iff_not, Nat.not_lt, Nat.pow_eq]

theorem intText?_eq_none_iff {n : Int} : intText? n = none ↔ 10 ^ digitLimit ≤ n.natAbs := by
  rw [← fits_eq_false_iff, intText?, ite_eq_right_iff]
  simp only [reduceCtorEq, imp_false, Bool.not_eq_true]

end FLang.Decimal
