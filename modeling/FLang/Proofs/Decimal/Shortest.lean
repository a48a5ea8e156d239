import FLang.Proofs.Decimal.Conversion

/-!
# The shortest decimal rounds to its double

The decimal that is found for a double lies between the midpoints around it (`shortest_between`),
and so is rounded to the double again.

* `Interval.Contains` reads an interval of fractions as rational numbers; it does not depend on the
  unit (`contains_inUnits`);
* `magnitude_spec`: the search starts at the number of digits of the double;
* `firstHit_contains`, `firstHit_isSome`: what the search finds is in the interval, and it finds
  something, since with eighteen digits the number just below the double is in the interval.

The digits found are read as a number of at most `2 · 10 ^ 18`, which is within the range of
integers.
-/

namespace FLang.Decimal

/-! ## Intervals -/

/-- The number with this numerator. -/
def Interval.point (i : Interval) (n : Nat) : ℚ :=
  n / i.denominator

/-- The numbers in an interval. -/
structure Interval.Contains (i : Interval) (q : ℚ) : Prop where
  /-- They are not below the lower end. -/
  ge : i.point i.low ≤ q
  /-- They are not above the upper end. -/
  le : q ≤ i.point i.high
  /-- The ends belong to closed intervals only. -/
  closed : i.point i.low = q ∨ q = i.point i.high → i.closed = true

/-- The test in natural numbers decides membership. -/
theorem Interval.holds_iff {i : Interval} (hpos : 0 < i.denominator) (units : Nat) :
    i.holds units = true ↔ i.Contains units := by
  have hpos' : (0 : ℚ) < i.denominator := by exact_mod_cast hpos
  -- the four comparisons, each of them multiplied by the denominator
  have hge : i.point i.low ≤ units ↔ i.low ≤ units * i.denominator := by
    rw [Interval.point, div_le_iff₀ hpos']
    exact_mod_cast Iff.rfl
  have hle : units ≤ i.point i.high ↔ units * i.denominator ≤ i.high := by
    rw [Interval.point, le_div_iff₀ hpos']
    exact_mod_cast Iff.rfl
  have hlow : i.point i.low = units ↔ i.low = units * i.denominator := by
    rw [Interval.point, div_eq_iff hpos'.ne']
    exact_mod_cast Iff.rfl
  have hhigh : units = i.point i.high ↔ units * i.denominator = i.high := by
    rw [Interval.point, eq_div_iff hpos'.ne']
    exact_mod_cast Iff.rfl
  unfold Interval.holds
  constructor
  · intro h
    cases hclosed : i.closed with
    | true =>
      simp only [hclosed, if_true, Bool.and_eq_true, decide_eq_true_eq] at h
      exact ⟨hge.2 h.1, hle.2 h.2, fun _ => hclosed⟩
    | false =>
      simp only [hclosed, Bool.false_eq_true, if_false, Bool.and_eq_true, decide_eq_true_eq] at h
      refine ⟨hge.2 h.1.le, hle.2 h.2.le, ?_⟩
      rintro (h' | h')
      · exact absurd (hlow.1 h') h.1.ne
      · exact absurd (hhigh.1 h') h.2.ne
  · rintro ⟨h, h', hends⟩
    rw [hge] at h
    rw [hle] at h'
    rw [hlow, hhigh] at hends
    cases hclosed : i.closed with
    | true => simp [h, h']
    | false =>
      rw [hclosed] at hends
      have hne : ¬ (i.low = units * i.denominator ∨ units * i.denominator = i.high) :=
        fun h => Bool.noConfusion (hends h)
      simp only [Bool.false_eq_true, if_false, Bool.and_eq_true, decide_eq_true_eq]
      omega

theorem ten_zpow_pos (e : Int) : (0 : ℚ) < 10 ^ e := zpow_pos (by norm_num) e

theorem zpow_eq_div {a : ℚ} (ha : a ≠ 0) (e : Int) : a ^ e = a ^ e.toNat / a ^ (-e).toNat := by
  rw [← zpow_natCast, ← zpow_natCast, ← zpow_sub₀ ha]
  congr 1
  omega

/-- A number in other units. -/
theorem Interval.point_inUnits (i : Interval) (e : Int) (n : Nat) :
    (i.inUnits e).point (n * Nat.pow 10 (-e).toNat) = i.point n / 10 ^ e := by
  unfold Interval.point Interval.inUnits
  rw [zpow_eq_div (by norm_num) e]
  push_cast [Nat.pow_eq]
  rw [div_div, mul_div_assoc', div_div_eq_mul_div]

/-- A change of the unit changes the numbers and not the interval. -/
theorem Interval.contains_inUnits {i : Interval} {e : Int} {q : ℚ} :
    (i.inUnits e).Contains q ↔ i.Contains (q * 10 ^ e) := by
  have hten := ten_zpow_pos e
  have hlow : (i.inUnits e).point (i.inUnits e).low = i.point i.low / 10 ^ e :=
    i.point_inUnits e i.low
  have hhigh : (i.inUnits e).point (i.inUnits e).high = i.point i.high / 10 ^ e :=
    i.point_inUnits e i.high
  constructor
  · rintro ⟨hge, hle, hclosed⟩
    rw [hlow, hhigh, div_eq_iff hten.ne', eq_div_iff hten.ne'] at hclosed
    rw [hlow, div_le_iff₀ hten] at hge
    rw [hhigh, le_div_iff₀ hten] at hle
    exact ⟨hge, hle, hclosed⟩
  · rintro ⟨hge, hle, hclosed⟩
    refine ⟨?_, ?_, ?_⟩
    · rwa [hlow, div_le_iff₀ hten]
    · rwa [hhigh, le_div_iff₀ hten]
    · rwa [hlow, hhigh, div_eq_iff hten.ne', eq_div_iff hten.ne']

/-! ## The search -/

section Search

variable {i : Interval}

theorem Interval.inUnits_denominator_pos (hpos : 0 < i.denominator) (e : Int) :
    0 < (i.inUnits e).denominator :=
  Nat.mul_pos hpos (Nat.pow_pos (by decide))

/-- A candidate that is found lies in the interval. -/
theorem Interval.holds_of_nearest? {n : Nat} (h : i.nearest? = some n) : i.holds n = true := by
  unfold Interval.nearest? at h
  simp only at h
  split at h <;> grind

theorem Interval.nearest?_of_holds (h : i.holds (i.value / i.denominator) = true) :
    ∃ n, i.nearest? = some n := by
  unfold Interval.nearest?
  cases hceiling : i.holds (i.value / i.denominator + 1) with
  | false =>
    simp only [h, hceiling]
    exact ⟨_, rfl⟩
  | true =>
    simp only [h, hceiling]
    split_ifs <;> exact ⟨_, rfl⟩

/-- The whole part of the value. -/
theorem Interval.floor_le (i : Interval) : (i.value / i.denominator : Nat) ≤ i.point i.value :=
  Nat.cast_div_le

theorem Interval.lt_floor_add_one (i : Interval) :
    i.point i.value < (i.value / i.denominator : Nat) + 1 := by
  have hlt := Nat.lt_floor_add_one (i.point i.value)
  rwa [Interval.point, Nat.floor_div_eq_div] at hlt

/-- What the search finds is in the interval, on a grid that was searched. -/
theorem Interval.firstHit_contains (hpos : 0 < i.denominator) {fuel : Nat} {e : Int}
    {s : Scientific} (h : i.firstHit fuel e = some s) :
    i.Contains s.value ∧ e - fuel < s.exponent := by
  induction fuel generalizing e with
  | zero => cases h
  | succ fuel ih =>
    unfold Interval.firstHit at h
    split at h
    · next digits hdigits =>
      cases h
      have hholds := Interval.holds_of_nearest? hdigits
      rw [Interval.holds_iff (inUnits_denominator_pos hpos e), contains_inUnits] at hholds
      exact ⟨hholds, by simp⟩
    · obtain ⟨hcontains, hlt⟩ := ih h
      exact ⟨hcontains, by push_cast; omega⟩

/-- If a grid that is searched has a point, the search finds one. -/
theorem Interval.firstHit_isSome {fuel j : Nat} {e : Int} (hj : j < fuel)
    (h : ∃ n, (i.inUnits (e - j)).nearest? = some n) : ∃ s, i.firstHit fuel e = some s := by
  induction fuel generalizing e j with
  | zero => cases hj
  | succ fuel ih =>
    unfold Interval.firstHit
    split
    · exact ⟨_, rfl⟩
    · next hnone =>
      cases j with
      | zero =>
        obtain ⟨n, hn⟩ := h
        rw [Nat.cast_zero, Int.sub_zero, hnone] at hn
        cases hn
      | succ j =>
        refine ih (j := j) (by omega) ?_
        have hstep : e - 1 - (j : Int) = e - (j + 1 : Nat) := by omega
        rwa [hstep]

/-- The number of digits before the point: the search for it starts below and stops in time. -/
theorem Interval.magnitude_spec (hpos : 0 < i.denominator) {fuel : Nat} {p : Int}
    (hlow : (10 : ℚ) ^ (p - 1) ≤ i.point i.value) (hhigh : i.point i.value < 10 ^ (p + fuel)) :
    (10 : ℚ) ^ (i.magnitude fuel p - 1) ≤ i.point i.value ∧
      i.point i.value < 10 ^ i.magnitude fuel p := by
  induction fuel generalizing p with
  | zero =>
    rw [Nat.cast_zero, add_zero] at hhigh
    exact ⟨hlow, hhigh⟩
  | succ fuel ih =>
    have hcompare : (i.inUnits p).value < (i.inUnits p).denominator ↔
        i.point i.value < 10 ^ p := by
      have hunits : (0 : ℚ) < (i.inUnits p).denominator := by
        exact_mod_cast inUnits_denominator_pos hpos p
      have hpoint : (i.inUnits p).point (i.inUnits p).value = i.point i.value / 10 ^ p :=
        i.point_inUnits p i.value
      rw [← div_lt_one (ten_zpow_pos p), ← hpoint, Interval.point, div_lt_one hunits]
      exact_mod_cast Iff.rfl
    unfold Interval.magnitude
    split
    · next hlt => exact ⟨hlow, hcompare.1 hlt⟩
    · next hge =>
      refine ih ?_ ?_
      · rw [add_sub_cancel_right]
        exact not_lt.1 fun h => hge (hcompare.2 h)
      · have hsum : p + 1 + (fuel : Int) = p + (fuel + 1 : Nat) := by push_cast; ring
        rwa [hsum]

end Search

/-- Dropping zeros keeps the value, and the digits do not grow. -/
theorem Scientific.trim_spec (fuel : Nat) (s : Scientific) :
    (s.trim fuel).value = s.value ∧ (s.trim fuel).digits ≤ s.digits := by
  induction fuel generalizing s with
  | zero => exact ⟨rfl, le_refl _⟩
  | succ fuel ih =>
    unfold Scientific.trim
    split
    · next hzero =>
      simp only [Bool.and_eq_true, decide_eq_true_eq] at hzero
      obtain ⟨hvalue, hle⟩ := ih ⟨s.digits / 10, s.exponent + 1⟩
      refine ⟨hvalue.trans ?_, hle.trans (Nat.div_le_self ..)⟩
      have hdigits : (s.digits : ℚ) = (s.digits / 10 : Nat) * 10 := by
        exact_mod_cast (Nat.div_mul_cancel (Nat.dvd_of_mod_eq_zero hzero.2)).symm
      simp only [Scientific.value]
      rw [hdigits, zpow_add_one₀ (by norm_num)]
      ring
    · exact ⟨rfl, le_refl _⟩

/-! ## The interval of a double -/

/-- How far the lower end of the interval is from the double, in quarters of the spacing. -/
def gapBelow (m : Nat) (e : Int) : Nat :=
  if m = Nat.pow 2 52 && e > leastExponent then 1 else 2

section Rounding

variable (m : Nat) (e : Int)

theorem rounding_denominator_pos : 0 < (rounding m e).denominator :=
  Nat.pow_pos (by decide)

theorem rounding_point (n : Nat) :
    (rounding m e).point (n * Nat.pow 2 (e - 2).toNat) = n / 4 * 2 ^ e := by
  have hquarter : (2 : ℚ) ^ e = 2 ^ (e - 2) * 4 := by
    rw [zpow_sub₀ (by norm_num)]
    norm_num
  have hflip : -(e - 2) = 2 - e := by ring
  rw [hquarter, zpow_eq_div (by norm_num) (e - 2), hflip, Interval.point, rounding]
  push_cast [Nat.pow_eq]
  ring

/-- The interval of a double is around its value, -/
theorem rounding_value : (rounding m e).point (rounding m e).value = m * 2 ^ e := by
  refine (rounding_point m e (4 * m)).trans ?_
  push_cast
  ring

/-- ends half a step above it, -/
theorem rounding_high : (rounding m e).point (rounding m e).high = (m + 1 / 2) * 2 ^ e := by
  refine (rounding_point m e (4 * m + 2)).trans ?_
  push_cast
  ring

variable {m e}

/-- and starts half a step below it, where the step below a power of two is half as wide. -/
theorem rounding_low (hm : 0 < m) :
    (rounding m e).point (rounding m e).low = (m - gapBelow m e / 4) * 2 ^ e := by
  refine (rounding_point m e (4 * m - gapBelow m e)).trans ?_
  have hle : gapBelow m e ≤ 4 * m := by
    unfold gapBelow
    split <;> omega
  push_cast [Nat.cast_sub hle]
  ring

/-- What is in the interval lies between the midpoints. -/
theorem between_of_contains (hm : 0 < m) {q : ℚ} (h : (rounding m e).Contains q) :
    Between m e q := by
  obtain ⟨hge, hle, hclosed⟩ := h
  have hunit := two_zpow_pos e
  rw [rounding_low hm] at hge hclosed
  rw [rounding_high] at hle hclosed
  have hgap : (gapBelow m e : ℚ) ≤ 2 := by
    unfold gapBelow
    split <;> norm_num
  have hhalf : ((m : ℚ) - 1 / 2) * 2 ^ e ≤ (m - gapBelow m e / 4) * 2 ^ e :=
    mul_le_mul_of_nonneg_right (by linarith) hunit.le
  refine ⟨hhalf.trans hge, fun hm' he => ?_, hle, ?_⟩
  · have hone : gapBelow m e = 1 := by simp [gapBelow, hm', leastExponent, he]
    rw [hone] at hge
    exact_mod_cast hge
  · intro hends
    refine of_decide_eq_true (hclosed (hends.imp_left fun hlow => ?_))
    exact le_antisymm hge (hlow ▸ hhalf)

/-- The lower end is at a distance that seventeen digits resolve. -/
theorem rounding_low_le (h : Canonical m e) :
    (rounding m e).point (rounding m e).low ≤ m * 2 ^ e - m * 2 ^ e / 2 ^ 54 := by
  have hunit := two_zpow_pos e
  have hlt : (m : ℚ) < 2 ^ 53 := by exact_mod_cast h.lt
  rw [rounding_low h.pos]
  have hgap : (m : ℚ) / 2 ^ 54 ≤ gapBelow m e / 4 := by
    unfold gapBelow
    split
    · next hpow =>
      simp only [Bool.and_eq_true, decide_eq_true_eq] at hpow
      rw [hpow.1]
      norm_num
    · rw [div_le_div_iff₀ (by norm_num) (by norm_num), Nat.cast_ofNat]
      linarith
  calc ((m : ℚ) - gapBelow m e / 4) * 2 ^ e
    _ ≤ (m - m / 2 ^ 54) * 2 ^ e := mul_le_mul_of_nonneg_right (by linarith) hunit.le
    _ = m * 2 ^ e - m * 2 ^ e / 2 ^ 54 := by ring

end Rounding

/-! ## The estimate of the magnitude -/

/-- Comparing powers of ten and of two: `59 / 196 < log₁₀ 2 < 28 / 93`. -/
theorem ten_zpow_le_two_zpow {s l : Int} (h : 0 ≤ l ∧ 196 * s ≤ 59 * l ∨ l ≤ 0 ∧ 93 * s ≤ 28 * l) :
    (10 : ℚ) ^ s ≤ 2 ^ l := by
  rcases h with ⟨hl, h⟩ | ⟨hl, h⟩
  · have hbase : (10 : ℚ) ^ 59 ≤ 2 ^ 196 := by norm_num
    refine (pow_le_pow_iff_left₀ (ten_zpow_pos s).le (two_zpow_pos l).le
      (by decide : 196 ≠ 0)).1 ?_
    calc ((10 : ℚ) ^ s) ^ 196
      _ = 10 ^ (196 * s) := by rw [← zpow_natCast, ← zpow_mul, mul_comm]; rfl
      _ ≤ 10 ^ (59 * l) := zpow_le_zpow_right₀ (by norm_num) h
      _ = (10 ^ 59) ^ l := by rw [zpow_mul]; rfl
      _ ≤ (2 ^ 196) ^ l := zpow_le_zpow_left₀ hl (by norm_num) hbase
      _ = (2 ^ l) ^ 196 := by rw [← zpow_natCast, ← zpow_natCast, ← zpow_mul, ← zpow_mul, mul_comm]
  · have hbase : (2 : ℚ) ^ 93 ≤ 10 ^ 28 := by norm_num
    refine (pow_le_pow_iff_left₀ (ten_zpow_pos s).le (two_zpow_pos l).le
      (by decide : 93 ≠ 0)).1 ?_
    calc ((10 : ℚ) ^ s) ^ 93
      _ = 10 ^ (93 * s) := by rw [← zpow_natCast, ← zpow_mul, mul_comm]; rfl
      _ ≤ 10 ^ (28 * l) := zpow_le_zpow_right₀ (by norm_num) h
      _ = (10 ^ 28) ^ l := by rw [zpow_mul]; rfl
      _ = ((10 ^ 28) ^ (-l))⁻¹ := by rw [zpow_neg, inv_inv]
      _ ≤ ((2 ^ 93) ^ (-l))⁻¹ :=
          inv_anti₀ (by positivity) (zpow_le_zpow_left₀ (by omega) (by norm_num) hbase)
      _ = (2 ^ l) ^ 93 := by
          rw [zpow_neg, inv_inv, ← zpow_natCast, ← zpow_natCast, ← zpow_mul, ← zpow_mul, mul_comm]

/-- Estimates by 93/28 and 196/59 of the logarithm of ten to the base two bound powers of two by
powers of ten. -/
theorem two_zpow_le_ten_zpow {s l : Int} (h : 0 ≤ l ∧ 28 * l ≤ 93 * s ∨ l ≤ 0 ∧ 59 * l ≤ 196 * s) :
    (2 : ℚ) ^ l ≤ 10 ^ s := by
  have hflip : (10 : ℚ) ^ (-s) ≤ 2 ^ (-l) := ten_zpow_le_two_zpow (by omega)
  rw [zpow_neg, zpow_neg] at hflip
  exact (inv_le_inv₀ (ten_zpow_pos s) (two_zpow_pos l)).1 hflip

/-- The estimate is at most nine short of the magnitude. -/
theorem Interval.magnitudeBound_spec {i : Interval} (hvalue : 0 < i.value)
    (hpos : 0 < i.denominator) (hlarge : i.value.log2 ≤ 10000)
    (hlarge' : i.denominator.log2 ≤ 10000) :
    (10 : ℚ) ^ (i.magnitudeBound - 1) ≤ i.point i.value ∧
      i.point i.value < 10 ^ (i.magnitudeBound + (8 : Nat)) := by
  have hpos' : (0 : ℚ) < i.denominator := by exact_mod_cast hpos
  have hlog : (2 : ℚ) ^ i.value.log2 ≤ i.value := by exact_mod_cast Nat.log2_self_le hvalue.ne'
  have hlog' : (i.value : ℚ) < 2 ^ (i.value.log2 + 1) := by exact_mod_cast Nat.lt_log2_self
  have hden : (2 : ℚ) ^ i.denominator.log2 ≤ i.denominator := by
    exact_mod_cast Nat.log2_self_le hpos.ne'
  have hden' : (i.denominator : ℚ) < 2 ^ (i.denominator.log2 + 1) := by
    exact_mod_cast Nat.lt_log2_self
  unfold Interval.magnitudeBound Interval.point
  generalize i.value.log2 = a at *
  generalize i.denominator.log2 = b at *
  constructor
  · calc (10 : ℚ) ^ (((a : Int) - b - 1) * 30103 / 100000 - 1 - 1)
      _ ≤ 2 ^ ((a : Int) - (b + 1 : Nat)) := ten_zpow_le_two_zpow (by omega)
      _ = 2 ^ a / 2 ^ (b + 1) := by rw [zpow_sub₀ (by norm_num), zpow_natCast, zpow_natCast]
      _ ≤ i.value / i.denominator := div_le_div₀ (by positivity) hlog hpos' hden'.le
  · calc (i.value : ℚ) / i.denominator
      _ < 2 ^ (a + 1) / 2 ^ b := div_lt_div₀ hlog' hden (by positivity) (by positivity)
      _ = 2 ^ ((a + 1 : Nat) - (b : Int)) := by
          rw [zpow_sub₀ (by norm_num), zpow_natCast, zpow_natCast]
      _ ≤ 10 ^ (((a : Int) - b - 1) * 30103 / 100000 - 1 + (8 : Nat)) :=
          two_zpow_le_ten_zpow (by omega)

/-! ## The shortest decimal -/

theorem rounding_value_log2 {m : Nat} {e : Int} (h : Canonical m e) (he : e ≤ 971) :
    (rounding m e).value.log2 ≤ 10000 := by
  have hpos := h.pos
  have hlt : (rounding m e).value < 2 ^ (55 + (e - 2).toNat) := by
    rw [Nat.pow_add]
    refine Nat.mul_lt_mul_of_pos_right ?_ (Nat.two_pow_pos _)
    have := h.lt
    omega
  have hne : (rounding m e).value ≠ 0 :=
    (Nat.mul_pos (by omega : 0 < 4 * m) (Nat.two_pow_pos (e - 2).toNat)).ne'
  have := (Nat.log2_lt hne).2 hlt
  omega

/-- With eighteen digits there is a point in the interval: the one just below the double. -/
theorem nearest?_of_magnitude {m : Nat} {e p : Int} (h : Canonical m e)
    (hp : (10 : ℚ) ^ (p - 1) ≤ m * 2 ^ e) :
    ∃ n, ((rounding m e).inUnits (p - 18)).nearest? = some n := by
  refine Interval.nearest?_of_holds ?_
  rw [Interval.holds_iff (Interval.inUnits_denominator_pos (rounding_denominator_pos m e) _),
    Interval.contains_inUnits]
  have hvalue : ((rounding m e).inUnits (p - 18)).point ((rounding m e).inUnits (p - 18)).value =
      m * 2 ^ e / 10 ^ (p - 18) := by
    rw [← rounding_value]
    exact (rounding m e).point_inUnits (p - 18) (rounding m e).value
  have hten := ten_zpow_pos (p - 18)
  have hfloor := ((rounding m e).inUnits (p - 18)).floor_le
  have hceiling := ((rounding m e).inUnits (p - 18)).lt_floor_add_one
  rw [hvalue, le_div_iff₀ hten] at hfloor
  rw [hvalue, div_lt_iff₀ hten] at hceiling
  generalize _ / ((rounding m e).inUnits (p - 18)).denominator = n at *
  have hseventeen : (10 : ℚ) ^ (p - 1) = 10 ^ 17 * 10 ^ (p - 18) := by
    rw [← zpow_natCast, ← zpow_add₀ (by norm_num)]
    congr 1
    ring
  rw [hseventeen] at hp
  -- one unit is less than the distance to the lower end, since `2 ^ 54 < 10 ^ 17`
  have hlow : (rounding m e).point (rounding m e).low < n * 10 ^ (p - 18) := by
    have hend := rounding_low_le h
    norm_num at hp hend
    linarith
  have hhigh : n * 10 ^ (p - 18) < (rounding m e).point (rounding m e).high := by
    have hunit := two_zpow_pos e
    rw [rounding_high]
    linarith
  refine ⟨hlow.le, hhigh.le, ?_⟩
  rintro (heq | heq)
  · exact absurd heq hlow.ne
  · exact absurd heq hhigh.ne

/-- The digits of a decimal in the interval, down to eighteen places behind the first digit. -/
theorem digits_le_of_contains {m : Nat} {e p : Int} (hm : 0 < m) (hp : (m : ℚ) * 2 ^ e < 10 ^ p)
    {s : Scientific} (h : (rounding m e).Contains s.value) (hs : p ≤ 18 + s.exponent) :
    s.digits ≤ 2 * 10 ^ 18 := by
  have hone : (1 : ℚ) ≤ m := by exact_mod_cast hm
  have hunit := two_zpow_pos e
  have hle : (s.digits : ℚ) * 10 ^ s.exponent ≤ 2 * 10 ^ 18 * 10 ^ s.exponent := by
    calc (s.digits : ℚ) * 10 ^ s.exponent
      _ ≤ (m + 1 / 2) * 2 ^ e := rounding_high m e ▸ h.le
      _ ≤ 2 * m * 2 ^ e := mul_le_mul_of_nonneg_right (by linarith) hunit.le
      _ ≤ 2 * 10 ^ p := by linarith
      _ ≤ 2 * 10 ^ ((18 : Nat) + s.exponent) :=
          mul_le_mul_of_nonneg_left (zpow_le_zpow_right₀ (by norm_num) hs) (by norm_num)
      _ = 2 * 10 ^ 18 * 10 ^ s.exponent := by
          rw [zpow_add₀ (by norm_num), zpow_natCast, mul_assoc]
  exact_mod_cast le_of_mul_le_mul_right hle (ten_zpow_pos s.exponent)

/-- The search starts at the number of digits of the double. -/
theorem rounding_magnitude {m : Nat} {e : Int} (h : Canonical m e) (he : e ≤ 971) :
    (10 : ℚ) ^ ((rounding m e).magnitude 8 (rounding m e).magnitudeBound - 1) ≤ m * 2 ^ e ∧
      (m : ℚ) * 2 ^ e < 10 ^ (rounding m e).magnitude 8 (rounding m e).magnitudeBound := by
  have hpos := rounding_denominator_pos m e
  have hvalue : 0 < (rounding m e).value :=
    Nat.mul_pos (Nat.mul_pos (by decide) h.pos) (Nat.two_pow_pos _)
  have hlog : (rounding m e).denominator.log2 ≤ 10000 := by
    have hleast := h.least
    have hden : (rounding m e).denominator.log2 = (2 - e).toNat := Nat.log2_two_pow
    omega
  obtain ⟨hbound, hbound'⟩ :=
    Interval.magnitudeBound_spec hvalue hpos (rounding_value_log2 h he) hlog
  have hspec := Interval.magnitude_spec hpos hbound hbound'
  rwa [rounding_value] at hspec

/-- **The shortest decimal lies between the midpoints** around its double, and has few digits. -/
theorem shortest_between {m : Nat} {e : Int} (h : Canonical m e) (he : e ≤ 971) :
    Between m e (shortest m e).value ∧ (shortest m e).digits ≤ 2 * 10 ^ 18 := by
  obtain ⟨hp, hp'⟩ := rounding_magnitude h he
  unfold shortest
  rw [if_neg h.pos.ne']
  simp only
  generalize (rounding m e).magnitude 8 (rounding m e).magnitudeBound = p at *
  obtain ⟨s, hs⟩ : ∃ s, (rounding m e).firstHit 18 (p - 1) = some s := by
    refine Interval.firstHit_isSome (by decide : 17 < 18) ?_
    have hgrid : p - 1 - (17 : Nat) = p - 18 := by ring
    rw [hgrid]
    exact nearest?_of_magnitude h hp
  obtain ⟨hcontains, hexponent⟩ :=
    Interval.firstHit_contains (rounding_denominator_pos m e) hs
  obtain ⟨htrim, hdigits⟩ := Scientific.trim_spec 17 s
  rw [hs, Option.getD_some, htrim]
  exact ⟨between_of_contains h.pos hcontains,
    hdigits.trans (digits_le_of_contains h.pos hp' hcontains (by omega))⟩

end FLang.Decimal
