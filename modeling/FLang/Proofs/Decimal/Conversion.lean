import FLang.Proofs.Decimal.Rounding

/-!
# Decimals as doubles

A decimal is converted into the double nearest to it (`toFloat_rounds`).

* `Denotes.unpack_pack`, `shape_double`: a double is taken apart into the mantissa and the exponent
  that it was packed from;
* `mul_rounds`, `div_rounds`: products and quotients are correctly rounded;
* `ofScientific_mul_rounds`, `ofScientific_div_rounds`: a decimal is a whole number times a power of
  ten, or divided by one. A short decimal has both factors as doubles, a long one is handled as a
  whole.

So what lies between the midpoints around a double is converted into it (`toFloat_of_between`).
-/

namespace FLang.Decimal

open Float.Model (UnpackedFloat Format totalExponent)
open Float.Model.UnpackedFloat

/-! ## Taking a double apart -/

section Bits

variable (bits : BitVec Format.binary64.numBits)

@[simp] theorem unpackMantissa_toNat : (unpackMantissa bits).toNat = bits.toNat % Nat.pow 2 52 := by
  simp [unpackMantissa]

@[simp] theorem unpackExponent_toNat :
    (unpackExponent bits).toNat = bits.toNat / Nat.pow 2 52 % Nat.pow 2 11 := by
  simp [unpackExponent, Nat.shiftRight_eq_div_pow]

@[simp] theorem unpackSign_toNat : (unpackSign bits).toNat = bits.toNat / Nat.pow 2 63 % 2 := by
  simp [unpackSign, Nat.shiftRight_eq_div_pow]

variable {bits}

theorem not_ge_of_positive (h : Sign.ofBitVec (unpackSign bits) = .positive) :
    ¬ bits.toNat ≥ Nat.pow 2 63 := by
  have hlt : bits.toNat < 2 ^ 64 := bits.isLt
  have hsign := unpackSign_toNat bits
  unfold Sign.ofBitVec at h
  split at h
  · next hzero =>
    rw [hzero, BitVec.toNat_zero, Nat.pow_eq] at hsign
    rw [Nat.pow_eq]
    omega
  · cases h

end Bits

/-- The leading digit that is not stored. -/
theorem implicit_toNat (m : BitVec 52) : (1#1 ++ m).toNat = Nat.pow 2 52 + m.toNat := by
  rw [BitVec.toNat_append, ← Nat.shiftLeft_add_eq_or_of_lt m.isLt]
  rfl

/-- A double that is not negative is taken apart into what it denotes. -/
theorem shape_of_denotes {x : Float} {w : ℚ} (h : Denotes w x.toModel.unpack) :
    (w = 0 ∧ shape x = .finite false 0 leastExponent) ∨
      ∃ m e, Canonical m e ∧ w = m * 2 ^ e ∧ shape x = .finite false m e := by
  have hbits : x.toBits.toNat = x.toModel.toBits.toBitVec.toNat := rfl
  have hbias : (Format.binary64.exponentBias : Int) + (52 : Nat) = 1075 := by decide
  unfold shape
  unfold Float.Model.unpack unpack at h
  obtain ⟨bits, hx⟩ : ∃ bits : BitVec Format.binary64.numBits, x.toModel.toBits.toBitVec = bits :=
    ⟨_, rfl⟩
  rw [hbits, hx]
  rw [hx] at h
  simp only [← unpackMantissa_toNat, ← unpackExponent_toNat, hbias] at h ⊢
  split at h
  · split at h <;> exact h.elim
  next hfinite =>
  -- the largest exponent is left to what is not finite, and the least one to zero and to numbers
  -- without the leading digit
  have hne : (unpackExponent bits).toNat ≠ 2047 := fun h => hfinite (BitVec.eq_of_toNat_eq h)
  rw [if_neg hne]
  split at h
  · next hzero =>
    have hzero' : (unpackExponent bits).toNat = 0 := congrArg BitVec.toNat hzero
    rw [if_pos hzero']
    rw [hzero'] at h
    split at h
    · next hnull =>
      rw [hnull, decide_eq_false (not_ge_of_positive h.1)]
      exact .inl ⟨h.2, rfl⟩
    · rw [decide_eq_false (not_ge_of_positive h.1)]
      exact .inr ⟨_, _, h.2.1, h.2.2, rfl⟩
  · next hpos =>
    have hpos' : (unpackExponent bits).toNat ≠ 0 := fun h => hpos (BitVec.eq_of_toNat_eq h)
    rw [if_neg hpos', decide_eq_false (not_ge_of_positive h.1), ← implicit_toNat]
    refine .inr ⟨_, _, h.2.1, h.2.2, ?_⟩
    congr 1
    simp only [leastExponent]
    omega

/-- A double is finite unless its exponent is the largest. -/
theorem isFinite_eq_false_iff {x : Float} :
    x.isFinite = false ↔ x.toBits.toNat / Nat.pow 2 52 % Nat.pow 2 11 = 2047 := by
  have hfinite : x.isFinite = (unpack .binary64 x.toModel.toBits.toBitVec).isFinite := rfl
  have hbits : x.toBits.toNat = x.toModel.toBits.toBitVec.toNat := rfl
  obtain ⟨bits, hx⟩ : ∃ bits : BitVec Format.binary64.numBits, x.toModel.toBits.toBitVec = bits :=
    ⟨_, rfl⟩
  rw [hfinite, hbits, hx, ← unpackExponent_toNat]
  simp only [unpack]
  split
  · next hlast =>
    refine iff_of_true ?_ (congrArg BitVec.toNat hlast)
    split <;> rfl
  · next hlast =>
    refine iff_of_false ?_ fun h => hlast (BitVec.eq_of_toNat_eq h)
    split
    · split <;> simp [UnpackedFloat.isFinite]
    · simp [UnpackedFloat.isFinite]

/-- Exactly the finite doubles have a whole part. -/
theorem truncate?_eq_none_iff {x : Float} : truncate? x = none ↔ x.isFinite = false := by
  rw [isFinite_eq_false_iff]
  simp only [truncate?, shape]
  split
  · next hshape =>
    refine iff_of_false (by simp) fun hlast => ?_
    rw [if_pos hlast] at hshape
    split at hshape <;> cases hshape
  · next hshape =>
    refine iff_of_true rfl ?_
    by_contra hlast
    rw [if_neg hlast] at hshape
    split at hshape
    · exact hshape _ _ _ rfl
    · exact hshape _ _ _ rfl

/-! ## Packing -/

/-- Of the parts that were packed, the sign can be taken out again. -/
theorem unpackSign_packComponents {spec : Format} {sign : Sign}
    {exponent : BitVec spec.exponentBits} {mantissa : BitVec spec.mantissaBitsWithoutImplicit} :
    Sign.ofBitVec (unpackSign (packComponents spec sign exponent mantissa)) = sign := by
  have hsign : unpackSign (packComponents spec sign exponent mantissa) = sign.toBitVec := by
    apply BitVec.eq_of_getLsbD_eq
    intro i hi
    obtain rfl : i = 0 := by omega
    simp [unpackSign, packComponents, BitVec.getLsbD_append, BitVec.getElem_append]
  rw [hsign]
  cases sign <;> rfl

/-- Two unpacked numbers are equal if their parts are. -/
theorem finite_congr {m m' : Nat} {e e' : Int} {hm : 0 < m} {hm' : 0 < m'} (h : m = m')
    (h' : e = e') :
    UnpackedFloat.finite .positive m e hm = .finite .positive m' e' hm' := by
  subst h h'
  rfl

/-- Bits with an exponent that is neither the least nor the greatest stand for a normal double. -/
theorem unpack_normal {m : Nat} {e : Int} {exponent : BitVec 11} {mantissa : BitVec 52} (hm : 0 < m)
    (hmantissa : m = 2 ^ 52 + mantissa.toNat) (hexponent : e = exponent.toNat - 1075)
    (hpos : exponent.toNat ≠ 0) (hlt : exponent.toNat ≠ 2047) :
    unpack .binary64 (packComponents .binary64 .positive exponent mantissa) =
      .finite .positive m e hm := by
  unfold unpack
  simp only [unpackMantissa_packComponents, unpackExponent_packComponents,
    unpackSign_packComponents]
  rw [if_neg fun h => hlt (congrArg BitVec.toNat h), if_neg fun h => hpos (congrArg BitVec.toNat h)]
  refine finite_congr ?_ ?_
  · rw [hmantissa]
    exact implicit_toNat mantissa
  · have hbias : (Format.binary64.exponentBias : Int) + (52 : Nat) = 1075 := by decide
    rw [hexponent, hbias]

/-- Bits with the least exponent stand for a double without an implicit digit. -/
theorem unpack_subnormal {m : Nat} {mantissa : BitVec 52} (hm : 0 < m)
    (hmantissa : m = mantissa.toNat) :
    unpack .binary64 (packComponents .binary64 .positive 0#11 mantissa) =
      .finite .positive m (-1074) hm := by
  subst hmantissa
  unfold unpack
  simp only [unpackMantissa_packComponents, unpackExponent_packComponents,
    unpackSign_packComponents]
  rw [if_neg (by decide), if_pos trivial, dif_neg fun h => hm.ne' (congrArg BitVec.toNat h)]
  exact finite_congr rfl (by decide)

/-- **What is packed can be unpacked**, if it is a double at all. -/
theorem unpack_pack_finite {m : Nat} {e : Int} (hm : 0 < m) (h : Canonical m e) (he : e ≤ 971) :
    unpack .binary64 (UnpackedFloat.pack .binary64 (.finite .positive m e hm)) =
      .finite .positive m e hm := by
  obtain ⟨-, hlt, hleast, hnormal⟩ := h
  have hbias : Format.binary64.exponentBias = 1023 := by decide
  unfold UnpackedFloat.pack
  simp only [hbias]
  rw [if_neg (by omega)]
  split
  · next hlog =>
    have hdigits : 2 ^ 52 ≤ m := (Nat.le_log2 hm.ne').1 (Nat.succ.inj hlog).ge
    have hbiased : (e + (1023 : Nat) + (52 : Nat)).toNat % 2 ^ 11 =
        (e + (1023 : Nat) + (52 : Nat)).toNat := Nat.mod_eq_of_lt (by omega)
    refine unpack_normal hm ?_ ?_ ?_ ?_
    · rw [BitVec.toNat_ofNat]
      omega
    all_goals
      rw [BitVec.toNat_ofNat, hbiased]
      omega
  · next hlog =>
    have hdigits : m < 2 ^ 52 := by
      have hlt' := (Nat.log2_lt hm.ne').2 hlt
      have hlog' : m.log2 + 1 ≠ 53 := hlog
      exact (Nat.log2_lt hm.ne').1 (by omega)
    obtain rfl : e = -1074 := hnormal.resolve_left (by omega)
    exact unpack_subnormal hm (Nat.mod_eq_of_lt hdigits).symm

/-- The largest double. -/
def largest : ℚ :=
  (2 ^ 53 - 1 : Nat) * 2 ^ (971 : Int)

theorem two_pow_le_largest {k : Nat} (h : k ≤ 1023) : (2 : ℚ) ^ k ≤ largest := by
  have hunit := two_zpow_pos 971
  calc (2 : ℚ) ^ k
    _ ≤ 2 ^ 1023 := pow_le_pow_right₀ (by norm_num) h
    _ = 2 ^ 52 * 2 ^ (971 : Int) := by rw [← two_zpow_eq_mul]; rfl
    _ ≤ largest := mul_le_mul_of_nonneg_right (by norm_num) hunit.le

/-- **A double that is not too large is unpacked into what it was packed from.** -/
theorem Denotes.unpack_pack {w : ℚ} {x : UnpackedFloat} (h : Denotes w x) (hw : w ≤ largest) :
    (Float.Model.pack x).unpack = x := by
  cases x with
  | infinity => exact h.elim
  | notANumber => exact h.elim
  | zero =>
    obtain ⟨rfl, -⟩ := h
    rfl
  | finite sign m e hm =>
    obtain ⟨rfl, hcanonical, rfl⟩ := h
    exact unpack_pack_finite hm hcanonical (hcanonical.exponent_le (by decide) (by decide) hw)

/-- The float of a mantissa and an exponent. -/
def double {m : Nat} {e : Int} (h : Canonical m e) : Float :=
  ⟨.pack (.finite .positive m e h.pos)⟩

theorem denotes_finite {m : Nat} {e : Int} (h : Canonical m e) :
    Denotes (m * 2 ^ e) (.finite .positive m e h.pos) :=
  ⟨rfl, h, rfl⟩

theorem shape_double {m : Nat} {e : Int} (h : Canonical m e) (he : e ≤ 971) :
    shape (double h) = .finite false m e := by
  have hunpack : (double h).toModel.unpack = .finite .positive m e h.pos :=
    unpack_pack_finite h.pos h he
  have hdenotes : Denotes (m * 2 ^ e) (double h).toModel.unpack := hunpack ▸ denotes_finite h
  rcases shape_of_denotes hdenotes with ⟨hzero, -⟩ | ⟨m', e', h', hvalue, hshape⟩
  · exact absurd hzero h.value_pos.ne'
  · obtain ⟨rfl, rfl⟩ := h.unique h' hvalue
    exact hshape

/-! ## Products and quotients -/

/-- A product of long mantissas is correctly rounded. -/
theorem mul_rounds {m m' : Nat} (e e' : Int) (hm : 0 < m) (hm' : 0 < m')
    (hprecise : 2 ^ 52 ≤ m * m') :
    ∃ w, Rounds (m * 2 ^ e * (m' * 2 ^ e')) w ∧
      Denotes w (mul .binary64 (.finite .positive m e hm) (.finite .positive m' e' hm')) := by
  refine roundWithAccuracy_rounds ?_ (.inl hprecise)
  have hvalue : (m : ℚ) * 2 ^ e * (m' * 2 ^ e') / 2 ^ (e + e') = (m * m' : Nat) := by
    rw [div_eq_iff (two_zpow_pos _).ne', zpow_add₀ (by norm_num)]
    push_cast
    ring
  exact hvalue

/-- The quotient has 53 digits, or reaches down to the least exponent. -/
theorem divCore_precise {m m' : Nat} {e e' : Int} (hm : 0 < m) (hm' : 0 < m') :
    2 ^ 52 ≤ (divCore .binary64 m e m' e').1 ∨ (divCore .binary64 m e m' e').2.1 ≤ -1074 := by
  simp only [divCore, binary64_targetExponent, totalExponent, Nat.shiftLeft_eq]
  have hlog : 2 ^ m.log2 ≤ m := Nat.log2_self_le hm.ne'
  have hlog' : m' < 2 ^ (m'.log2 + 1) := Nat.lt_log2_self
  -- above the least exponent the quotient is shifted until it has 53 digits
  by_cases hleast :
      min (e - e') (max ((m.log2 : Int) + 1 + e - (m'.log2 + 1 + e') - 53) (-1074)) ≤ -1074
  · exact .inr hleast
  left
  generalize hk : (e - e' - min (e - e')
    (max ((m.log2 : Int) + 1 + e - (m'.log2 + 1 + e') - 53) (-1074))).toNat = k
  rw [Nat.le_div_iff_mul_le hm']
  calc 2 ^ 52 * m'
    _ ≤ 2 ^ 52 * 2 ^ (m'.log2 + 1) := Nat.mul_le_mul_left _ hlog'.le
    _ = 2 ^ (52 + (m'.log2 + 1)) := (Nat.pow_add ..).symm
    _ ≤ 2 ^ (m.log2 + k) := Nat.pow_le_pow_right (by decide) (by omega)
    _ = 2 ^ m.log2 * 2 ^ k := Nat.pow_add ..
    _ ≤ m * 2 ^ k := Nat.mul_le_mul_right _ hlog

/-- The quotient and the remainder locate the number. -/
theorem divCore_locates {m m' : Nat} {e e' : Int} (hm' : 0 < m') :
    Locates (.ofMantissaAndAccuracy (divCore .binary64 m e m' e').1
        (divCore .binary64 m e m' e').2.2)
      (m * 2 ^ e / (m' * 2 ^ e') / 2 ^ (divCore .binary64 m e m' e').2.1) := by
  simp only [divCore, Nat.shiftLeft_eq]
  generalize htarget : min (e - e') _ = target
  have hle : target ≤ e - e' := htarget ▸ min_le_left _ _
  obtain ⟨k, hk⟩ : ∃ k : Nat, e - e' = target + k := ⟨(e - e' - target).toNat, by omega⟩
  have hshift : (e - e' - target).toNat = k := by omega
  have hpos : (0 : ℚ) < m' := by exact_mod_cast hm'
  have hvalue : (m : ℚ) * 2 ^ e / (m' * 2 ^ e') / 2 ^ target = ((m * 2 ^ k : Nat) : ℚ) / m' := by
    have he : e = target + k + e' := by omega
    have hunit := two_zpow_pos target
    have hunit' := two_zpow_pos e'
    rw [he, zpow_add₀ (by norm_num), two_zpow_eq_mul]
    push_cast
    field_simp
  rw [hshift, hvalue]
  exact locates_div hm'

/-- A quotient is correctly rounded. -/
theorem div_rounds {m m' : Nat} (e e' : Int) (hm : 0 < m) (hm' : 0 < m') :
    ∃ w, Rounds (m * 2 ^ e / (m' * 2 ^ e')) w ∧
      Denotes w (div .binary64 (.finite .positive m e hm) (.finite .positive m' e' hm')) :=
  roundWithAccuracy_rounds (divCore_locates hm') (divCore_precise hm hm')

/-! ## Short decimals -/

/-- A double that is at least one has 53 digits. -/
theorem Denotes.exists_of_one_le {w : ℚ} {x : UnpackedFloat} (h : Denotes w x) (hw : 1 ≤ w) :
    ∃ m e, ∃ hm : 0 < m, x = .finite .positive m e hm ∧ Canonical m e ∧ 2 ^ 52 ≤ m ∧
      w = m * 2 ^ e := by
  cases x with
  | infinity => exact h.elim
  | notANumber => exact h.elim
  | zero => exact absurd (h.2 ▸ hw) (by norm_num)
  | finite sign m e hm =>
    obtain ⟨rfl, hcanonical, hvalue⟩ := h
    refine ⟨m, e, hm, rfl, hcanonical, hcanonical.normal.resolve_right ?_, hvalue⟩
    rintro rfl
    have hlt : (m : ℚ) < 2 ^ 53 := by exact_mod_cast hcanonical.lt
    have hsmall : (2 : ℚ) ^ 53 * 2 ^ (-1074 : Int) < 1 := by
      rw [← zpow_natCast, ← zpow_add₀ (by norm_num)]
      exact zpow_lt_one_of_neg₀ (by norm_num) (by norm_num)
    have := mul_lt_mul_of_pos_right hlt (two_zpow_pos (-1074))
    linarith

/-- A double lies between its own midpoints. -/
theorem between_self (m : Nat) (e : Int) : Between m e (m * 2 ^ e) := by
  have hunit := two_zpow_pos e
  refine ⟨by linarith, fun _ _ => by linarith, by linarith, ?_⟩
  rintro (h | h) <;> linarith

/-- A double is rounded to itself. -/
theorem Canonical.roundWithAccuracy_denotes {m : Nat} {e : Int} (h : Canonical m e) :
    Denotes (m * 2 ^ e) (roundWithAccuracy .binary64 .positive m e .exact) := by
  have hlocates : Locates (.ofMantissaAndAccuracy m .exact) (m * 2 ^ e / 2 ^ e) :=
    mul_div_cancel_right₀ _ (two_zpow_pos e).ne'
  obtain ⟨w, hrounds, hdenotes⟩ :=
    roundWithAccuracy_rounds hlocates (h.normal.imp_right fun he => he.le)
  rwa [hrounds.eq_of_between h (between_self m e)] at hdenotes

/-- A whole number of at most 53 digits is a double. -/
theorem ofNat_denotes {n : Nat} (hn : 0 < n) (h : n < 2 ^ 53) : Denotes n (ofNat .binary64 n) := by
  have hlog : n.log2 < 53 := (Nat.log2_lt hn.ne').2 h
  have hself : 2 ^ n.log2 ≤ n := Nat.log2_self_le hn.ne'
  have hself' : n < 2 ^ (n.log2 + 1) := Nat.lt_log2_self
  have hshift : (0 - max ((n.log2 : Int) + 1 + 0 - 53) (-1074)).toNat = 52 - n.log2 := by omega
  unfold ofNat ofInt UnpackedFloat.normalize
  rw [Int.compare_eq_gt.2 (by omega)]
  unfold UnpackedFloat.round decreaseExponent
  simp only [Int.toNat_natCast, binary64_targetExponent, totalExponent, hshift, Nat.shiftLeft_eq]
  generalize hk : 52 - n.log2 = k
  have hcanonical : Canonical (n * 2 ^ k) (0 - k) := by
    have hsum : n.log2 + k = 52 := by omega
    refine ⟨Nat.mul_pos hn (Nat.two_pow_pos k), ?_, by omega, .inl ?_⟩
    · calc n * 2 ^ k
        _ < 2 ^ (n.log2 + 1) * 2 ^ k := Nat.mul_lt_mul_of_pos_right hself' (Nat.two_pow_pos k)
        _ = 2 ^ 53 := by rw [← Nat.pow_add]; congr 1; omega
    · calc 2 ^ 52
        _ = 2 ^ n.log2 * 2 ^ k := by rw [← Nat.pow_add, hsum]
        _ ≤ n * 2 ^ k := Nat.mul_le_mul_right _ hself
  have hvalue : (n : ℚ) = (n * 2 ^ k : Nat) * 2 ^ (0 - k : Int) := by
    rw [zero_sub, zpow_neg, zpow_natCast]
    push_cast
    field_simp
  rw [hvalue]
  exact hcanonical.roundWithAccuracy_denotes

/-- A small whole number, as a double that is packed. -/
theorem toFloat_denotes {n : Nat} (hn : 0 < n) (h : n < 2 ^ 53) :
    Denotes n n.toUInt64.toFloat.toModel.unpack := by
  have hword : n.toUInt64.toNat = n := by
    rw [UInt64.toNat_ofNat']
    exact Nat.mod_eq_of_lt (h.trans (by decide))
  have hdenotes := ofNat_denotes hn h
  have hunpack : n.toUInt64.toFloat.toModel.unpack =
      (Float.Model.pack (ofNat .binary64 n.toUInt64.toNat)).unpack := rfl
  have hle : (n : ℚ) ≤ largest :=
    le_trans (by exact_mod_cast h.le) (two_pow_le_largest (by decide : 53 ≤ 1023))
  rw [hunpack, hword, hdenotes.unpack_pack hle]
  exact hdenotes

/-- Whether an unpacked double is a whole number. -/
def isWhole (n : Nat) : UnpackedFloat → Bool
  | .finite .positive m e _ =>
    m < 2 ^ 53 && 2 ^ 52 ≤ m && -1074 ≤ e && m * 2 ^ e.toNat = n * 2 ^ (-e).toNat
  | _ => false

/-- The test for whole numbers is sound. -/
theorem denotes_of_isWhole {n : Nat} {x : UnpackedFloat} (h : isWhole n x = true) :
    Denotes n x := by
  cases x with
  | finite sign m e hm =>
    cases sign with
    | negative => cases h
    | positive =>
      simp only [isWhole, Bool.and_eq_true, decide_eq_true_eq] at h
      obtain ⟨⟨⟨hlt, hge⟩, hleast⟩, hvalue⟩ := h
      refine ⟨rfl, ⟨hm, hlt, hleast, .inl hge⟩, ?_⟩
      have hvalue' : (m : ℚ) * 2 ^ e.toNat = n * 2 ^ (-e).toNat := by exact_mod_cast hvalue
      have he : e = e.toNat - (-e).toNat := by omega
      rw [he, zpow_sub₀ (by norm_num), zpow_natCast, zpow_natCast, ← mul_div_assoc, hvalue',
        mul_div_cancel_right₀ _ (by positivity)]
  | _ => cases h

theorem isWhole_powerOfTen : ∀ k (_ : k < Float.exactlyRepresentablePowersOfTen.size),
    isWhole (10 ^ k) Float.exactlyRepresentablePowersOfTen[k].toModel.unpack = true := by
  decide +kernel

theorem powerOfTen_denotes {k : Nat} (h : k < Float.exactlyRepresentablePowersOfTen.size) :
    Denotes (10 ^ k) Float.exactlyRepresentablePowersOfTen[k].toModel.unpack := by
  have := denotes_of_isWhole (isWhole_powerOfTen k h)
  push_cast at this
  exact this

/-! ## Decimals of any length -/

/-- The double that a float is packed from is `v` correctly rounded. -/
def RoundsTo (v : ℚ) (x : Float) : Prop :=
  ∃ w u, Rounds v w ∧ Denotes w u ∧ x = ⟨.pack u⟩

/-- A decimal with a positive exponent rounds as the product does, -/
theorem ofScientific_mul_rounds {n k : Nat} (hn : 0 < n) (hk : k ≤ 2048) :
    RoundsTo (n * 10 ^ k) (Float.ofScientific n false k) := by
  have hten : (1 : ℚ) ≤ 10 ^ k := one_le_pow₀ (by norm_num)
  unfold Float.ofScientific
  split
  · next hshort =>
    -- both factors are doubles
    obtain ⟨m, e, hm, hx, -, hnormal, hvalue⟩ :=
      (toFloat_denotes hn hshort.1).exists_of_one_le (by exact_mod_cast hn)
    obtain ⟨m', e', hm', hx', -, -, hvalue'⟩ :=
      (powerOfTen_denotes (Nat.lt_succ_of_le hshort.2)).exists_of_one_le hten
    obtain ⟨w, hrounds, hdenotes⟩ :=
      mul_rounds e e' hm hm' (hnormal.trans (Nat.le_mul_of_pos_right m hm'))
    rw [← hvalue, ← hvalue'] at hrounds
    rw [← hx, ← hx'] at hdenotes
    exact ⟨w, _, hrounds, hdenotes, rfl⟩
  · -- the whole number is given 53 more digits, so that the product is precise
    have hpos : 0 < n <<< 53 := by
      rw [Nat.shiftLeft_eq]
      positivity
    have hlarge : 2 ^ 52 ≤ n <<< 53 * 10 ^ k := by
      rw [Nat.shiftLeft_eq]
      exact le_trans (by omega) (Nat.le_mul_of_pos_right (n * 2 ^ 53) (by positivity))
    obtain ⟨w, hrounds, hdenotes⟩ := mul_rounds (-53) 0 hpos (Nat.pow_pos (by decide)) hlarge
    have hvalue : ((n <<< 53 : Nat) : ℚ) * 2 ^ (-53 : Int) * ((10 ^ k : Nat) * 2 ^ (0 : Int)) =
        n * 10 ^ k := by
      rw [Nat.shiftLeft_eq, zpow_neg, zpow_zero]
      push_cast
      field_simp
    rw [hvalue] at hrounds
    refine ⟨w, _, hrounds, hdenotes, ?_⟩
    simp only [Bool.false_eq_true, if_false, Float.Model.ofScientific, ofScientific]
    rw [dif_neg hn.ne', if_neg (by simp; omega), if_neg (by simp; omega), if_pos (by simp)]
    rfl

/-- and one with a negative exponent rounds as the quotient does. -/
theorem ofScientific_div_rounds {n k : Nat} (hn : 0 < n) (hk : 0 < k) (hlow : k ≤ 2048 + n.log2) :
    RoundsTo (n / 10 ^ k) (Float.ofScientific n true k) := by
  have hten : (1 : ℚ) ≤ 10 ^ k := one_le_pow₀ (by norm_num)
  unfold Float.ofScientific
  split
  · next hshort =>
    obtain ⟨m, e, hm, hx, -, -, hvalue⟩ :=
      (toFloat_denotes hn hshort.1).exists_of_one_le (by exact_mod_cast hn)
    obtain ⟨m', e', hm', hx', -, -, hvalue'⟩ :=
      (powerOfTen_denotes (Nat.lt_succ_of_le hshort.2)).exists_of_one_le hten
    obtain ⟨w, hrounds, hdenotes⟩ := div_rounds e e' hm hm'
    rw [← hvalue, ← hvalue'] at hrounds
    rw [← hx, ← hx'] at hdenotes
    exact ⟨w, _, hrounds, hdenotes, rfl⟩
  · obtain ⟨w, hrounds, hdenotes⟩ := div_rounds 0 0 hn (Nat.pow_pos (by decide) : 0 < 10 ^ k)
    simp only [zpow_zero, mul_one] at hrounds
    push_cast at hrounds
    refine ⟨w, _, hrounds, hdenotes, ?_⟩
    simp only [if_true, Float.Model.ofScientific, ofScientific, Int.negOfNat_eq]
    rw [dif_neg hn.ne', if_neg (by simp), if_neg (by simp; omega), if_neg (by simp; omega)]
    simp only [Int.neg_neg]
    rfl

/-- The value of a decimal. -/
def Scientific.value (s : Scientific) : ℚ :=
  s.digits * 10 ^ s.exponent

theorem length_natDigits_le {n places : Nat} (h : n < 10 ^ places) (hpos : 0 < places) :
    (natDigits n).length ≤ places :=
  (Nat.length_toDigits_le_iff (by decide) hpos).2 h

theorem lt_ten_pow_length (n : Nat) : n < 10 ^ (natDigits n).length := by
  have hpos : 0 < (natDigits n).length := Nat.length_toDigits_pos
  exact (Nat.length_toDigits_le_iff (by decide) hpos).1 (le_refl _)

/-- What is far below the finest spacing is rounded to zero. -/
theorem rounds_zero {v : ℚ} (hv : 0 ≤ v) (h : v < 10 ^ (-330 : Int)) : Rounds v 0 := by
  have hpow : (2 : ℚ) ^ 1075 < 10 ^ 330 := by
    exact_mod_cast (by decide +kernel : 2 ^ 1075 < 10 ^ 330)
  have hhalf : (10 : ℚ) ^ (-330 : Int) < 1 / 2 * 2 ^ (-1074 : Int) := by
    have hten : (10 : ℚ) ^ (-330 : Int) = (10 ^ 330)⁻¹ := rfl
    have htwo : (1 / 2 : ℚ) * 2 ^ (-1074 : Int) = (2 ^ 1075)⁻¹ := by
      rw [one_div, pow_succ', mul_inv]
      rfl
    rw [hten, htwo]
    exact inv_strictAnti₀ (by positivity) hpow
  obtain ⟨e, he⟩ : ∃ e : Int, e = -1074 := ⟨_, rfl⟩
  rw [← he] at hhalf
  have hunit := two_zpow_pos e
  have hsmall : v / 2 ^ e < 1 / 2 := (div_lt_iff₀ hunit).2 (h.trans hhalf)
  have hnonneg : 0 ≤ v / 2 ^ e := div_nonneg hv hunit.le
  refine ⟨e, 0, ⟨he.ge, ?_, .inr he⟩, ⟨?_, ?_, fun _ => rfl⟩, by simp⟩
  · exact (div_lt_iff₀ hunit).1 (hsmall.trans (by norm_num))
  · rw [Nat.cast_zero]
    linarith
  · rw [Nat.cast_zero]
    linarith

/-- **The conversion of decimals is correctly rounded**, below the magnitudes that are decided by
the number of digits alone. -/
theorem toFloat_rounds {s : Scientific} (h : s.exponent + (natDigits s.digits).length ≤ 310) :
    RoundsTo s.value (toFloat s) := by
  obtain ⟨n, exponent⟩ := s
  simp only at h
  simp only [toFloat, Scientific.value]
  have hlength := lt_ten_pow_length n
  split
  · next hzero =>
    refine ⟨0, .zero .positive, ?_, ⟨rfl, rfl⟩, rfl⟩
    rw [hzero, Nat.cast_zero, zero_mul]
    exact rounds_zero (le_refl 0) (by positivity)
  next hne =>
  have hn : 0 < n := Nat.pos_of_ne_zero hne
  rw [if_neg (by omega)]
  split
  · next hsmall =>
    have hten : (0 : ℚ) < 10 ^ exponent := by positivity
    refine ⟨0, .zero .positive, rounds_zero (by positivity) ?_, ⟨rfl, rfl⟩, rfl⟩
    -- so few digits at such an exponent are below half of the least double
    calc (n : ℚ) * 10 ^ exponent
      _ < 10 ^ (natDigits n).length * 10 ^ exponent :=
          mul_lt_mul_of_pos_right (by exact_mod_cast hlength) hten
      _ = 10 ^ ((natDigits n).length + exponent) := by rw [zpow_add₀ (by norm_num), zpow_natCast]
      _ ≤ 10 ^ (-330 : Int) := zpow_le_zpow_right₀ (by norm_num) (by omega)
  next hlarge =>
  rcases lt_or_ge exponent 0 with hneg | hnonneg
  · obtain ⟨k, rfl⟩ : ∃ k : Nat, exponent = -k := ⟨exponent.natAbs, by omega⟩
    -- the conversion wants the number of bits, of which there are no fewer than digits
    have hlog : (natDigits n).length ≤ n.log2 + 1 :=
      length_natDigits_le (Nat.lt_log2_self.trans_le (Nat.pow_le_pow_left (by decide) _)) (by omega)
    rw [zpow_neg, zpow_natCast, ← div_eq_mul_inv, decide_eq_true hneg, Int.natAbs_neg,
      Int.natAbs_natCast]
    exact ofScientific_div_rounds hn (by omega) (by omega)
  · obtain ⟨k, rfl⟩ : ∃ k : Nat, exponent = k := ⟨exponent.natAbs, by omega⟩
    rw [zpow_natCast, decide_eq_false (by omega), Int.natAbs_natCast]
    exact ofScientific_mul_rounds hn (by omega)

/-- A decimal between the midpoints around a double is converted into it. -/
theorem toFloat_of_between {m : Nat} {e : Int} (h : Canonical m e) {s : Scientific}
    (hpower : s.exponent + (natDigits s.digits).length ≤ 310) (hs : Between m e s.value) :
    toFloat s = double h := by
  obtain ⟨w, u, hrounds, hdenotes, hx⟩ := toFloat_rounds hpower
  obtain rfl := hrounds.eq_of_between h hs
  rw [hx, hdenotes.unique (denotes_finite h), double]

end FLang.Decimal
