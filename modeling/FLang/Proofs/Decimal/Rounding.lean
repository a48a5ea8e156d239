import Mathlib
import FLang.Decimal.Reading

/-!
# Rounding to the nearest double

`Rounds v w` says, in rational numbers, that `w` is the double nearest to `v`: the spacing of the
doubles near `v` is a power of two (`Spacing`), and `w` is the whole number of spacings nearest to
`v`, the even one of two (`Nearest`).

The model rounds a mantissa of any length together with two bits for what lies behind it, and shifts
both. `roundWithAccuracy_rounds` says that the result is the nearest double, provided that the
mantissa has 53 binary digits or reaches down to the finest spacing.

Two facts about `Rounds` are used later: it does not go past a double that `v` does not exceed
(`Rounds.le_double`), and what lies between the midpoints around a double is rounded to it
(`Rounds.eq_of_between`).
-/

namespace FLang.Decimal

open Float.Model (UnpackedFloat Format totalExponent)
open Float.Model.UnpackedFloat

/-! ## The nearest double -/

/-- A whole number nearest to `w`; half-way between two, the even one. -/
structure Nearest (w : ℚ) (n : Nat) : Prop where
  /-- It is not far above. -/
  le : (n : ℚ) ≤ w + 1 / 2
  /-- It is not far below. -/
  ge : w ≤ n + 1 / 2
  /-- Half-way it is even. -/
  even : (n : ℚ) = w + 1 / 2 ∨ w = n + 1 / 2 → n % 2 = 0

/-- Near `v` the doubles are `2 ^ e` apart: at that spacing `v` has 53 binary digits, or fewer if
the spacing is the finest. -/
structure Spacing (v : ℚ) (e : Int) : Prop where
  /-- No spacing is finer. -/
  least : -1074 ≤ e
  /-- There are no more than 53 digits. -/
  lt : v < 2 ^ 53 * 2 ^ e
  /-- There are no fewer unless the spacing is the finest. -/
  ge : 2 ^ 52 * 2 ^ e ≤ v ∨ e = -1074

/-- The double `w` is `v` correctly rounded. -/
def Rounds (v w : ℚ) : Prop :=
  ∃ (e : Int) (n : Nat), Spacing v e ∧ Nearest (v / 2 ^ e) n ∧ w = n * 2 ^ e

/-- The mantissa and the exponent of a positive double. -/
structure Canonical (m : Nat) (e : Int) : Prop where
  /-- The mantissa is not zero. -/
  pos : 0 < m
  /-- It has no more than 53 digits. -/
  lt : m < 2 ^ 53
  /-- The exponent is not below the least. -/
  least : -1074 ≤ e
  /-- There are no fewer than 53 digits unless the exponent is the least. -/
  normal : 2 ^ 52 ≤ m ∨ e = -1074

/-- An unpacked double that is not negative, and its value. -/
def Denotes (w : ℚ) : UnpackedFloat → Prop
  | .zero sign => sign = .positive ∧ w = 0
  | .finite sign m e _ => sign = .positive ∧ Canonical m e ∧ w = m * 2 ^ e
  | _ => False

theorem two_zpow_pos (e : Int) : (0 : ℚ) < 2 ^ e := zpow_pos (by norm_num) e

theorem Nearest.le_of_le {w : ℚ} {n k : Nat} (h : Nearest w n) (hk : w ≤ k) : n ≤ k := by
  have hlt : (n : ℚ) < k + 1 := by linarith [h.le]
  exact_mod_cast Nat.lt_succ_iff.1 (by exact_mod_cast hlt)

theorem Nearest.ge_of_ge {w : ℚ} {n k : Nat} (h : Nearest w n) (hk : (k : ℚ) ≤ w) : k ≤ n := by
  have hlt : (k : ℚ) < n + 1 := by linarith [h.ge]
  exact_mod_cast Nat.lt_succ_iff.1 (by exact_mod_cast hlt)

/-! ## The bits behind a mantissa -/

/-- The mantissa is the whole part of `w`, and the two bits tell on which side of the next half `w`
lies. -/
def Locates (em : ExtendedMantissa) (w : ℚ) : Prop :=
  match em.roundBit, em.stickyBit with
  | false, false => w = em.mantissa
  | false, true => (em.mantissa : ℚ) < w ∧ w < em.mantissa + 1 / 2
  | true, false => w = em.mantissa + 1 / 2
  | true, true => (em.mantissa : ℚ) + 1 / 2 < w ∧ w < em.mantissa + 1

theorem Locates.mantissa_le {em : ExtendedMantissa} {w : ℚ} (h : Locates em w) :
    (em.mantissa : ℚ) ≤ w := by
  obtain ⟨m, r, s⟩ := em
  cases r <;> cases s <;> simp only [Locates] at h <;> grind

theorem Locates.lt_mantissa_add_one {em : ExtendedMantissa} {w : ℚ} (h : Locates em w) :
    w < em.mantissa + 1 := by
  obtain ⟨m, r, s⟩ := em
  cases r <;> cases s <;> simp only [Locates] at h <;> grind

/-- The fraction `a / b` through its quotient and its remainder. -/
theorem locates_div {a b : Nat} (hb : 0 < b) :
    Locates (.ofMantissaAndAccuracy (a / b) (accuracyOfFraction (a % b) b)) (a / b : ℚ) := by
  have hpos : (0 : ℚ) < b := by exact_mod_cast hb
  have hsplit : (a : ℚ) / b = (a / b : Nat) + (a % b : Nat) / b := by
    rw [div_eq_iff hpos.ne', add_mul, div_mul_cancel₀ _ hpos.ne', mul_comm]
    exact_mod_cast (Nat.div_add_mod a b).symm
  have hlt : ((a % b : Nat) : ℚ) < b := by exact_mod_cast Nat.mod_lt a hb
  rw [hsplit]
  unfold accuracyOfFraction
  generalize a / b = q at *
  generalize a % b = r at *
  split
  · next hzero => simp [hzero, ExtendedMantissa.ofMantissaAndAccuracy, Locates]
  · next hne =>
    have hr : (0 : ℚ) < r := by exact_mod_cast Nat.pos_of_ne_zero hne
    have hfraction : 0 < (r : ℚ) / b := div_pos hr hpos
    -- the rest is compared with half of the divisor, and the fraction with one half
    rcases lt_trichotomy (2 * r) b with h | h | h
    · have hhalf : (r : ℚ) / b < 1 / 2 := by
        rw [div_lt_div_iff₀ hpos (by norm_num)]
        exact_mod_cast (by omega : r * 2 < 1 * b)
      rw [Nat.compare_eq_lt.2 h]
      exact ⟨lt_add_of_pos_right _ hfraction, add_lt_add_right hhalf _⟩
    · have hhalf : (r : ℚ) / b = 1 / 2 := by
        rw [div_eq_div_iff hpos.ne' (by norm_num)]
        exact_mod_cast (by omega : r * 2 = 1 * b)
      rw [Nat.compare_eq_eq.2 h]
      exact congrArg (_ + ·) hhalf
    · have hhalf : 1 / 2 < (r : ℚ) / b := by
        rw [div_lt_div_iff₀ (by norm_num) hpos]
        exact_mod_cast (by omega : 1 * b < r * 2)
      have hone : (r : ℚ) / b < 1 := (div_lt_one hpos).2 hlt
      rw [Nat.compare_eq_gt.2 h]
      exact ⟨add_lt_add_right hhalf _, add_lt_add_right hone _⟩

/-- Shifting right by one halves the number. -/
theorem Locates.shiftRightOne {em : ExtendedMantissa} {w : ℚ} (h : Locates em w) :
    Locates em.shiftRightOne (w / 2) := by
  obtain ⟨m, r, s⟩ := em
  have hsplit : (m : ℚ) = 2 * (m / 2 : Nat) + (m % 2 : Nat) := by
    exact_mod_cast (Nat.div_add_mod m 2).symm
  unfold ExtendedMantissa.shiftRightOne
  rcases Nat.mod_two_eq_zero_or_one m with hm | hm <;> rw [hm] at hsplit <;>
    cases r <;> cases s <;> simp [Locates, hm] at h ⊢ <;> grind

/-- Shifting right by `k` divides the number by `2 ^ k`. -/
theorem Locates.shiftRight {em : ExtendedMantissa} {w : ℚ} (h : Locates em w) (k : Nat) :
    Locates (em >>> k) (w / 2 ^ k) := by
  induction k with
  | zero =>
    rw [pow_zero, div_one]
    exact h
  | succ k ih =>
    rw [pow_succ, ← div_div]
    exact ih.shiftRightOne

/-- The rounded mantissa is the nearest whole number. -/
theorem Locates.nearest {em : ExtendedMantissa} {w : ℚ} (h : Locates em w) :
    Nearest w em.roundedMantissa := by
  obtain ⟨m, r, s⟩ := em
  cases r <;> cases s <;>
    simp only [Locates, ExtendedMantissa.roundedMantissa, ExtendedMantissa.accuracy,
      Accuracy.roundToNearestEven] at h ⊢
  · exact ⟨by linarith, by linarith, by rintro (h' | h') <;> linarith⟩
  · exact ⟨by linarith, by linarith, by rintro (h' | h') <;> linarith⟩
  · -- half-way: the low bit is added, so that the sum is even
    have hcases : ((m % 2 : Nat) : ℚ) = 0 ∨ ((m % 2 : Nat) : ℚ) = 1 := by
      exact_mod_cast Nat.mod_two_eq_zero_or_one m
    refine ⟨?_, ?_, fun _ => by omega⟩ <;> push_cast at hcases ⊢ <;>
      rcases hcases with h' | h' <;> linarith
  · refine ⟨?_, ?_, ?_⟩ <;> push_cast
    · linarith
    · linarith
    · rintro (h' | h') <;> linarith

/-! ## Rounding -/

@[simp] theorem binary64_targetExponent (total : Int) :
    Format.binary64.targetExponent total = max (total - 53) (-1074) := by
  simp only [Format.targetExponent]
  rfl

@[simp] theorem ofMantissaAndAccuracy_mantissa (mantissa : Nat) (accuracy : Accuracy) :
    (ExtendedMantissa.ofMantissaAndAccuracy mantissa accuracy).mantissa = mantissa := by
  cases accuracy with
  | exact => rfl
  | inexact order => cases order <;> rfl

/-- A mantissa of 53 digits, or one at the least exponent, tells the spacing. -/
theorem spacing_of_locates {em : ExtendedMantissa} {exponent : Int} {v : ℚ}
    (h : Locates em (v / 2 ^ exponent)) (hprecise : 2 ^ 52 ≤ em.mantissa ∨ exponent ≤ -1074) :
    Spacing v (Format.binary64.targetExponent (totalExponent em.mantissa exponent)) := by
  rw [binary64_targetExponent, totalExponent]
  have hunit := two_zpow_pos exponent
  refine ⟨le_max_right _ _, ?_, ?_⟩
  · have hlog : (em.mantissa : ℚ) + 1 ≤ 2 ^ (em.mantissa.log2 + 1) := by
      exact_mod_cast Nat.lt_log2_self (n := em.mantissa)
    have hv := (div_lt_iff₀ hunit).1 h.lt_mantissa_add_one
    calc v
      _ < (em.mantissa + 1) * 2 ^ exponent := hv
      _ ≤ 2 ^ (em.mantissa.log2 + 1) * 2 ^ exponent := mul_le_mul_of_nonneg_right hlog hunit.le
      _ = 2 ^ ((em.mantissa.log2 + 1 : Nat) + exponent : Int) := by
          rw [zpow_add₀ (by norm_num), zpow_natCast]
      _ ≤ 2 ^ ((53 : Nat) + max ((em.mantissa.log2 : Int) + 1 + exponent - 53) (-1074) : Int) :=
          zpow_le_zpow_right₀ (by norm_num) (by omega)
      _ = _ := by rw [zpow_add₀ (by norm_num), zpow_natCast]
  · by_cases hleast : (em.mantissa.log2 : Int) + 1 + exponent - 53 ≤ -1074
    · exact .inr (max_eq_right hleast)
    left
    -- a mantissa of zero is precise at the least exponent only
    have hne : em.mantissa ≠ 0 := by
      rintro hzero
      rw [hzero] at hprecise hleast
      simp only [Nat.log2_zero] at hleast
      omega
    have hlog : (2 : ℚ) ^ em.mantissa.log2 ≤ em.mantissa := by
      exact_mod_cast Nat.log2_self_le hne
    have hv := (le_div_iff₀ hunit).1 h.mantissa_le
    calc (2 : ℚ) ^ 52 * 2 ^ max ((em.mantissa.log2 : Int) + 1 + exponent - 53) (-1074)
      _ = 2 ^ ((52 : Nat) + max ((em.mantissa.log2 : Int) + 1 + exponent - 53) (-1074) : Int) := by
          rw [zpow_add₀ (by norm_num), zpow_natCast]
      _ = 2 ^ ((em.mantissa.log2 : Int) + exponent) := by congr 1; omega
      _ = 2 ^ em.mantissa.log2 * 2 ^ exponent := by rw [zpow_add₀ (by norm_num), zpow_natCast]
      _ ≤ em.mantissa * 2 ^ exponent := mul_le_mul_of_nonneg_right hlog hunit.le
      _ ≤ v := hv

/-- No digits are added by going to the spacing. -/
theorem le_targetExponent {mantissa : Nat} {exponent : Int}
    (h : 2 ^ 52 ≤ mantissa ∨ exponent ≤ -1074) :
    exponent ≤ Format.binary64.targetExponent (totalExponent mantissa exponent) := by
  rw [binary64_targetExponent, totalExponent]
  rcases h with h | h
  · have hlog : 52 ≤ mantissa.log2 := (Nat.le_log2 (by omega)).2 h
    omega
  · omega

theorem shiftToTargetExponent_of_lt {n : Nat} {e : Int} (hn : n < 2 ^ 53) (he : -1074 ≤ e) :
    shiftToTargetExponent .binary64 n e .exact = (⟨n, false, false⟩, e) := by
  have hlog : n.log2 < 53 := by
    rcases Nat.eq_zero_or_pos n with rfl | hpos
    · decide
    · exact (Nat.log2_lt hpos.ne').2 hn
  have hshift : (Format.binary64.targetExponent (totalExponent n e) - e).toNat = 0 := by
    rw [binary64_targetExponent, totalExponent]
    omega
  simp only [shiftToTargetExponent, shiftToExponent, hshift, Nat.cast_zero, add_zero]
  rfl

/-- A carry into one more digit moves the exponent up. -/
theorem shiftToTargetExponent_carry {e : Int} (he : -1074 ≤ e) :
    shiftToTargetExponent .binary64 (2 ^ 53) e .exact = (⟨2 ^ 52, false, false⟩, e + 1) := by
  have hshift : (Format.binary64.targetExponent (totalExponent (2 ^ 53) e) - e).toNat = 1 := by
    rw [binary64_targetExponent, totalExponent, Nat.log2_two_pow]
    omega
  simp only [shiftToTargetExponent, shiftToExponent, hshift, Nat.cast_one]
  rfl

/-- What rounding makes of a shifted mantissa. -/
theorem denotes_of_shifted {w : ℚ} {shifted : ExtendedMantissa × Int}
    (h : w = shifted.1.mantissa * 2 ^ shifted.2 ∧
      (0 < shifted.1.mantissa → Canonical shifted.1.mantissa shifted.2)) :
    Denotes w (if h : shifted.1.mantissa = 0 then .zero .positive
      else .finite .positive shifted.1.mantissa shifted.2 (Nat.pos_of_ne_zero h)) := by
  obtain ⟨hvalue, hcanonical⟩ := h
  split
  · next hzero =>
    rw [hzero] at hvalue
    exact ⟨rfl, by simpa using hvalue⟩
  · next hne => exact ⟨rfl, hcanonical (Nat.pos_of_ne_zero hne), hvalue⟩

/-- **Rounding in the model is correct**: of a number whose digits are known down to the spacing of
the doubles near it, the nearest double comes out. -/
theorem roundWithAccuracy_rounds {mantissa : Nat} {exponent : Int} {accuracy : Accuracy} {v : ℚ}
    (hlocates : Locates (.ofMantissaAndAccuracy mantissa accuracy) (v / 2 ^ exponent))
    (hprecise : 2 ^ 52 ≤ mantissa ∨ exponent ≤ -1074) :
    ∃ w, Rounds v w ∧
      Denotes w (roundWithAccuracy .binary64 .positive mantissa exponent accuracy) := by
  have hspacing := spacing_of_locates hlocates
    (by rwa [ofMantissaAndAccuracy_mantissa])
  have hshift := le_targetExponent hprecise
  rw [ofMantissaAndAccuracy_mantissa] at hspacing
  unfold roundWithAccuracy
  rw [shiftToTargetExponent, shiftToExponent]
  generalize Format.binary64.targetExponent (totalExponent mantissa exponent) = e at *
  obtain ⟨k, rfl⟩ : ∃ k : Nat, e = exponent + k := ⟨(e - exponent).toNat, by omega⟩
  have hk : (exponent + (k : Int) - exponent).toNat = k := by omega
  simp only [hk]
  have hnearest := (hlocates.shiftRight k).nearest
  rw [div_div, ← zpow_natCast, ← zpow_add₀ (by norm_num)] at hnearest
  refine ⟨_, ⟨_, _, hspacing, hnearest, rfl⟩, denotes_of_shifted ?_⟩
  generalize ExtendedMantissa.roundedMantissa _ = n at *
  -- the second shift does nothing unless the rounding has carried into one more digit
  have hunit := two_zpow_pos (exponent + k)
  have hle : n ≤ 2 ^ 53 := hnearest.le_of_le (by
    rw [div_le_iff₀ hunit]
    exact_mod_cast hspacing.lt.le)
  rcases hle.lt_or_eq with hlt | rfl
  · rw [shiftToTargetExponent_of_lt hlt hspacing.least]
    refine ⟨rfl, fun hpos => ⟨hpos, hlt, hspacing.least, hspacing.ge.imp_left fun hge => ?_⟩⟩
    refine hnearest.ge_of_ge ?_
    rw [le_div_iff₀ hunit]
    exact_mod_cast hge
  · rw [shiftToTargetExponent_carry hspacing.least]
    refine ⟨?_, fun hpos => ⟨hpos, ?_, ?_, .inl (le_refl _)⟩⟩
    · rw [zpow_add_one₀ (by norm_num)]
      push_cast
      ring
    · exact (by decide : 2 ^ 52 < 2 ^ 53)
    · exact hspacing.least.trans (by simp)

/-! ## The value of a double -/

theorem two_zpow_eq_mul (e : Int) (k : Nat) : (2 : ℚ) ^ (e + k) = 2 ^ k * 2 ^ e := by
  rw [zpow_add₀ (by norm_num), zpow_natCast, mul_comm]

/-- A double of 53 digits is beyond all doubles of a smaller exponent. -/
theorem Canonical.exponent_le {m m' : Nat} {e e' : Int} (h : Canonical m e) (hm' : m' < 2 ^ 53)
    (he' : -1074 ≤ e') (hle : (m : ℚ) * 2 ^ e ≤ m' * 2 ^ e') : e ≤ e' := by
  by_contra hlt
  obtain ⟨k, rfl⟩ : ∃ k : Nat, e = e' + (k + 1 : Nat) := ⟨(e - e' - 1).toNat, by omega⟩
  rw [two_zpow_eq_mul, ← mul_assoc] at hle
  have hm : m * 2 ^ (k + 1) ≤ m' := by exact_mod_cast le_of_mul_le_mul_right hle (two_zpow_pos e')
  have hnormal : 2 ^ 52 ≤ m := h.normal.resolve_right (by omega)
  have hpow : 2 ^ 1 ≤ 2 ^ (k + 1) := Nat.pow_le_pow_right (by decide) (by omega)
  have hlarge := Nat.mul_le_mul hnormal hpow
  omega

/-- The mantissa and the exponent of a double are determined by its value. -/
theorem Canonical.unique {m m' : Nat} {e e' : Int} (h : Canonical m e) (h' : Canonical m' e')
    (hvalue : (m : ℚ) * 2 ^ e = m' * 2 ^ e') : m = m' ∧ e = e' := by
  have he : e = e' := le_antisymm (h.exponent_le h'.lt h'.least hvalue.le)
    (h'.exponent_le h.lt h.least hvalue.ge)
  subst he
  rw [mul_left_inj' (two_zpow_pos e).ne'] at hvalue
  exact ⟨by exact_mod_cast hvalue, rfl⟩

theorem Canonical.value_pos {m : Nat} {e : Int} (h : Canonical m e) : (0 : ℚ) < m * 2 ^ e :=
  mul_pos (by exact_mod_cast h.pos) (two_zpow_pos e)

/-- **A double is determined by its value.** -/
theorem Denotes.unique {w : ℚ} {x y : UnpackedFloat} (hx : Denotes w x) (hy : Denotes w y) :
    x = y := by
  cases x with
  | infinity => exact hx.elim
  | notANumber => exact hx.elim
  | zero =>
    obtain ⟨rfl, rfl⟩ := hx
    cases y with
    | infinity => exact hy.elim
    | notANumber => exact hy.elim
    | zero => rw [hy.1]
    | finite => exact absurd hy.2.2 hy.2.1.value_pos.ne
  | finite =>
    obtain ⟨rfl, hcanonical, rfl⟩ := hx
    cases y with
    | infinity => exact hy.elim
    | notANumber => exact hy.elim
    | zero => exact absurd hy.2 hcanonical.value_pos.ne'
    | finite =>
      obtain ⟨rfl, hcanonical', hvalue⟩ := hy
      obtain ⟨rfl, rfl⟩ := hcanonical.unique hcanonical' hvalue
      rfl

/-! ## Bounds on what is rounded -/

/-- **Rounding does not go past a double.** -/
theorem Rounds.le_double {v w : ℚ} {m : Nat} {e : Int} (h : Rounds v w) (hm : m < 2 ^ 53)
    (he : -1074 ≤ e) (hv : v ≤ m * 2 ^ e) : w ≤ m * 2 ^ e := by
  obtain ⟨e', n, hspacing, hnearest, rfl⟩ := h
  have hunit := two_zpow_pos e'
  have hle : e' ≤ e := by
    by_contra hlt
    obtain ⟨k, rfl⟩ : ∃ k : Nat, e' = e + (k + 1 : Nat) := ⟨(e' - e - 1).toNat, by omega⟩
    have hge := hspacing.ge.resolve_right (by omega)
    rw [two_zpow_eq_mul, ← mul_assoc] at hge
    have hmul := le_of_mul_le_mul_right (hge.trans hv) (two_zpow_pos e)
    have hmul' : 2 ^ 52 * 2 ^ (k + 1) ≤ m := by exact_mod_cast hmul
    have hpow : 2 ^ 1 ≤ 2 ^ (k + 1) := Nat.pow_le_pow_right (by decide) (by omega)
    omega
  obtain ⟨k, rfl⟩ : ∃ k : Nat, e = e' + k := ⟨(e - e').toNat, by omega⟩
  rw [two_zpow_eq_mul, ← mul_assoc] at hv ⊢
  have hn : n ≤ m * 2 ^ k := hnearest.le_of_le (by
    rw [div_le_iff₀ hunit]
    exact_mod_cast hv)
  exact mul_le_mul_of_nonneg_right (by exact_mod_cast hn) hunit.le

/-- A number between the midpoints of a double and its neighbours; a midpoint goes to the even side.
Just below a power of two the doubles are twice as dense. -/
structure Between (m : Nat) (e : Int) (v : ℚ) : Prop where
  /-- It is not below the lower midpoint. -/
  ge : (m - 1 / 2 : ℚ) * 2 ^ e ≤ v
  /-- The lower midpoint is nearer at a power of two. -/
  dense : m = 2 ^ 52 → -1074 < e → (m - 1 / 4 : ℚ) * 2 ^ e ≤ v
  /-- It is not above the upper midpoint. -/
  le : v ≤ (m + 1 / 2 : ℚ) * 2 ^ e
  /-- The midpoints belong to even mantissas. -/
  even : v = (m - 1 / 2 : ℚ) * 2 ^ e ∨ v = (m + 1 / 2 : ℚ) * 2 ^ e → m % 2 = 0

/-- At the spacing of the double itself. -/
theorem Nearest.eq_of_near {u : ℚ} {m n : Nat} (h : Nearest u n) (hge : (m : ℚ) - 1 / 2 ≤ u)
    (hle : u ≤ m + 1 / 2) (heven : u = m - 1 / 2 ∨ u = m + 1 / 2 → m % 2 = 0) : n = m := by
  have hhigh : (n : ℚ) ≤ (m + 1 : Nat) := by
    push_cast
    linarith [h.le]
  have hlow : (m : ℚ) ≤ (n + 1 : Nat) := by
    push_cast
    linarith [h.ge]
  have hhigh' : n ≤ m + 1 := by exact_mod_cast hhigh
  have hlow' : m ≤ n + 1 := by exact_mod_cast hlow
  -- at a distance of one both are at a tie, where both would be even
  rcases Nat.lt_trichotomy n m with hlt | heq | hgt
  · have hm : (m : ℚ) = n + 1 := by exact_mod_cast (by omega : m = n + 1)
    have hu : u = m - 1 / 2 := by linarith [h.ge]
    have := h.even (.inr (by linarith))
    have := heven (.inl hu)
    omega
  · exact heq
  · have hn : (n : ℚ) = m + 1 := by exact_mod_cast (by omega : n = m + 1)
    have hu : u = m + 1 / 2 := by linarith [h.le]
    have := h.even (.inl (by linarith))
    have := heven (.inr hu)
    omega

/-- A finer spacing than that of the double itself: just below a power of two. -/
theorem Between.eq_of_finer {m : Nat} {e e' : Int} {v : ℚ} (h : Between m e v)
    (hm : Canonical m e) (hspacing : Spacing v e') (hlt : e' < e) : m = 2 ^ 52 ∧ e = e' + 1 := by
  have hnormal : 2 ^ 52 ≤ m := hm.normal.resolve_right (by have := hspacing.least; omega)
  have hnormal' : (2 : ℚ) ^ 52 ≤ m := by exact_mod_cast hnormal
  obtain ⟨k, rfl⟩ : ∃ k : Nat, e = e' + (k + 1 : Nat) := ⟨(e - e' - 1).toNat, by omega⟩
  have hge := h.ge
  rw [two_zpow_eq_mul, ← mul_assoc] at hge
  have hbelow : ((m : ℚ) - 1 / 2) * 2 ^ (k + 1) < 2 ^ 53 :=
    lt_of_mul_lt_mul_right (hge.trans_lt hspacing.lt) (two_zpow_pos e').le
  have hk : k = 0 := by
    by_contra hne
    have hpow : (2 : ℚ) ^ 2 ≤ 2 ^ (k + 1) := pow_le_pow_right₀ (by norm_num) (by omega)
    have hmul := mul_le_mul (by linarith : (2 : ℚ) ^ 52 - 1 / 2 ≤ m - 1 / 2) hpow (by norm_num)
      (by linarith)
    norm_num at hmul hbelow
    linarith
  subst hk
  have hlt' : (m : ℚ) < 2 ^ 52 + 1 := by
    norm_num at hbelow
    linarith
  have hlt'' : m < 2 ^ 52 + 1 := by exact_mod_cast hlt'
  exact ⟨by omega, by simp⟩

/-- A coarser spacing starts beyond the upper midpoint. -/
theorem Between.not_coarser {m : Nat} {e e' : Int} {v : ℚ} (h : Between m e v)
    (hm : Canonical m e) (hspacing : Spacing v e') : ¬ e < e' := by
  intro hlt
  obtain ⟨k, rfl⟩ : ∃ k : Nat, e' = e + (k + 1 : Nat) := ⟨(e' - e - 1).toNat, by omega⟩
  have hlarge : (m : ℚ) + 1 ≤ 2 ^ 53 := by exact_mod_cast hm.lt
  have hge := hspacing.ge.resolve_right (by have := hm.least; omega)
  rw [two_zpow_eq_mul, ← mul_assoc] at hge
  have hmul := le_of_mul_le_mul_right (hge.trans h.le) (two_zpow_pos e)
  have hpow : (2 : ℚ) ^ 1 ≤ 2 ^ (k + 1) := pow_le_pow_right₀ (by norm_num) (by omega)
  norm_num at hpow hmul hlarge
  linarith

/-- **What lies between the midpoints around a double is rounded to it.** -/
theorem Rounds.eq_of_between {m : Nat} {e : Int} {v w : ℚ} (h : Rounds v w) (hm : Canonical m e)
    (hv : Between m e v) : w = m * 2 ^ e := by
  obtain ⟨e', n, hspacing, hnearest, rfl⟩ := h
  have hunit := two_zpow_pos e'
  rcases lt_trichotomy e' e with hlt | rfl | hgt
  · -- in units of half its spacing the double is `2 ^ 53`
    obtain ⟨rfl, rfl⟩ := hv.eq_of_finer hm hspacing hlt
    have hdense := hv.dense rfl (by have := hspacing.least; omega)
    have hstep : (2 : ℚ) ^ (e' + 1) = 2 * 2 ^ e' := by rw [zpow_add_one₀ (by norm_num), mul_comm]
    rw [hstep, ← mul_assoc] at hdense ⊢
    have hn : n = 2 ^ 53 := by
      refine hnearest.eq_of_near ?_ ?_ fun _ => by decide
      · rw [le_div_iff₀ hunit]
        refine le_trans (le_of_eq ?_) hdense
        push_cast
        ring
      · rw [div_le_iff₀ hunit]
        refine hspacing.lt.le.trans (mul_le_mul_of_nonneg_right ?_ hunit.le)
        push_cast
        linarith
    rw [hn]
    push_cast
    ring
  · have hn : n = m := by
      refine hnearest.eq_of_near ?_ ?_ fun htie => hv.even ?_
      · exact (le_div_iff₀ hunit).2 hv.ge
      · exact (div_le_iff₀ hunit).2 hv.le
      · exact htie.imp (div_eq_iff hunit.ne').1 (div_eq_iff hunit.ne').1
    rw [hn]
  · exact absurd hgt (hv.not_coarser hm hspacing)

end FLang.Decimal
