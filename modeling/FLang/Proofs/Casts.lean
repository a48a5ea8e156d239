import FLang.Proofs.Decimal.Range
import FLang.Proofs.Decimal.Texts
import FLang.Value.Cast

/-!
# Casts

What a cast does, for every value and every basic type (`cast_outcomes`). A value that is already of
the type stays as it is. Otherwise the cast yields a value of the type, unless the value is one of
those that cannot be converted (`Value.Refused`): nothing at all, a float without a whole part, an
integer that is too large for a float or too long for a text, or a text that does not say what the
type asks for.

A refused cast is an error that shows the value. Only an integer of too many digits cannot be shown
(`Value.Unshown`); such an integer is refused by `float` and `string`, and then there is no error of
the language, but a fault.
-/

namespace FLang

open Decimal

namespace Value

/-- The casts that are refused. -/
inductive Refused : Value → BasicType → Prop where
  | nothing {target : BasicType} : Refused .void target
  | notFinite {x : Float} : x.isFinite = false → Refused (.float x) .int
  | notInteger {text : String} :
      (∀ negative digits, SignedDigits text.toList negative digits → digitLimit < digits.length) →
      Refused (.string text) .int
  | tooLarge {n : Int} : overflow ≤ n.natAbs → Refused (.int n) .float
  | notNumber {text : String} :
      isPadded text = true ∨ ¬ IsNumberText text.toList → Refused (.string text) .float
  | notTruth {text : String} : text ≠ "true" → text ≠ "false" → Refused (.string text) .bool
  | tooLong {n : Int} : 10 ^ digitLimit ≤ n.natAbs → Refused (.int n) .string

/-- An integer of too many digits, which has no text. -/
def Unshown (value : Value) : Prop :=
  ∃ n, value = .int n ∧ 10 ^ digitLimit ≤ n.natAbs

variable {value : Value} {target : BasicType} {position : Position}

/-! ## What cannot be shown -/

/-- An integer has a text, or it has too many digits. -/
theorem render_int (n : Int) :
    (∃ text, intText? n = some text ∧ (Value.int n).render = .ok text) ∨
      intText? n = none ∧ (Value.int n).render = .error (.tooManyDigits none) := by
  -- not by `simp`, which would compute the least integer that has no text
  unfold render
  split
  case h_2 value heq =>
    obtain rfl := Value.int.inj heq
    split
    · next digits htext => exact .inl ⟨digits, htext, rfl⟩
    · next htext => exact .inr ⟨htext, rfl⟩
  all_goals contradiction

@[simp] theorem describe_int (n : Int) : (Value.int n).describe = (Value.int n).render := by
  unfold describe
  rfl

/-- What cannot be shown cannot be described in a message, either. -/
theorem Unshown.describe_eq (h : value.Unshown) :
    value.describe = .error (.tooManyDigits none) := by
  obtain ⟨n, rfl, hlong⟩ := h
  rw [describe_int]
  rcases render_int n with ⟨text, htext, -⟩ | ⟨-, hrender⟩
  · rw [intText?_eq_none_iff.2 hlong] at htext
    cases htext
  · exact hrender

/-- Every value but an integer of too many digits has a text for error messages. -/
theorem exists_describe_eq (h : ¬ value.Unshown) : ∃ shown, value.describe = .ok shown := by
  cases value with
  | int n =>
    rw [describe_int]
    rcases render_int n with ⟨text, -, hrender⟩ | ⟨htext, -⟩
    · exact ⟨text, hrender⟩
    · exact absurd ⟨n, rfl, intText?_eq_none_iff.1 htext⟩ h
  | _ => exact ⟨_, rfl⟩

/-! ## What cannot be converted -/

/-- A text is refused as an integer exactly where none can be read from it, -/
theorem toInt?_string_eq_none_iff {text : String} :
    (Value.string text).toInt? = none ↔ (Value.string text).Refused .int := by
  simp only [toInt?]
  constructor
  · intro h
    refine .notInteger fun negative digits hdigits => ?_
    by_contra hshort
    rw [readInt_eq_int_iff.2 ⟨negative, digits, hdigits, Nat.le_of_not_lt hshort, rfl⟩] at h
    cases h
  · rintro (_ | _ | hlong)
    split
    · next n hread =>
      obtain ⟨negative, digits, hdigits, hshort, -⟩ := readInt_eq_int_iff.1 hread
      exact absurd (hlong negative digits hdigits) (Nat.not_lt.2 hshort)
    · rfl

/-- as a float exactly where no float can be read, -/
theorem toFloat?_string_eq_none_iff {text : String} :
    (Value.string text).toFloat? = none ↔ (Value.string text).Refused .float := by
  have hrefused : (Value.string text).Refused .float ↔
      isPadded text = true ∨ ¬ IsNumberText text.toList :=
    ⟨by rintro (_ | _ | _ | _ | h); exact h, .notNumber⟩
  rw [hrefused, ← readFloat?_isSome_iff, Bool.not_eq_true, Option.isSome_eq_false_iff,
    Option.isNone_iff_eq_none, toFloat?]
  by_cases hpadded : isPadded text = true
  · simp [hpadded]
  · simp [hpadded]

/-- and as a truth value exactly where it is neither of the two words. -/
theorem toBool?_string_eq_none_iff {text : String} :
    (Value.string text).toBool? = none ↔ (Value.string text).Refused .bool := by
  constructor
  · intro h
    simp only [toBool?] at h
    split at h
    · cases h
    next htrue =>
    split at h
    · cases h
    next hfalse => exact .notTruth htrue hfalse
  · rintro (_ | _ | _ | _ | _ | ⟨htrue, hfalse⟩)
    simp [toBool?, htrue, hfalse]

@[simp] theorem toText?_int (n : Int) : (Value.int n).toText? = (Value.int n).render.toOption := by
  unfold toText?
  rfl

theorem toText?_int_eq_none_iff {n : Int} :
    (Value.int n).toText? = none ↔ 10 ^ digitLimit ≤ n.natAbs := by
  rw [toText?_int, ← intText?_eq_none_iff]
  rcases render_int n with ⟨text, htext, hrender⟩ | ⟨htext, hrender⟩
  · rw [hrender, htext]
    exact iff_of_false (Option.some_ne_none _) (Option.some_ne_none _)
  · rw [hrender, htext]
    exact iff_of_true rfl rfl

/-- **Conversion fails exactly for what is refused.** -/
theorem convert?_eq_none_iff (htype : value.type ≠ target) :
    value.convert? target = none ↔ value.Refused target := by
  cases value with
  | void => cases target <;> exact iff_of_true rfl .nothing
  | bool b => cases target <;> exact iff_of_false (Option.some_ne_none _) (by rintro ⟨⟩)
  | int n =>
    cases target with
    | int => exact absurd rfl htype
    | float =>
      rw [convert?, Option.map_eq_none_iff, toFloat?, intToFloat?_eq_none_iff]
      exact ⟨.tooLarge, by rintro ⟨⟩; assumption⟩
    | bool => exact iff_of_false (Option.some_ne_none _) (by rintro ⟨⟩)
    | string =>
      rw [convert?, Option.map_eq_none_iff, toText?_int_eq_none_iff]
      exact ⟨.tooLong, by rintro ⟨⟩; assumption⟩
  | float x =>
    cases target with
    | int =>
      rw [convert?, Option.map_eq_none_iff, toInt?, truncate?_eq_none_iff]
      exact ⟨.notFinite, by rintro ⟨⟩; assumption⟩
    | float => exact absurd rfl htype
    | bool => exact iff_of_false (Option.some_ne_none _) (by rintro ⟨⟩)
    | string => exact iff_of_false (Option.some_ne_none _) (by rintro ⟨⟩)
  | string text =>
    cases target with
    | int => exact Option.map_eq_none_iff.trans toInt?_string_eq_none_iff
    | float => exact Option.map_eq_none_iff.trans toFloat?_string_eq_none_iff
    | bool => exact Option.map_eq_none_iff.trans toBool?_string_eq_none_iff
    | string => exact absurd rfl htype

/-- A converted value is of the type. -/
theorem type_of_convert? {result : Value} (h : value.convert? target = some result) :
    result.type = target := by
  cases target <;> obtain ⟨_, -, rfl⟩ := Option.map_eq_some_iff.1 h <;> rfl

/-- What is refused is not of the type already. -/
theorem Refused.type_ne (h : value.Refused target) : value.type ≠ target := by
  cases h <;> simp [type]

/-! ## Casts -/

/-- A refused value is described in the error that says so. -/
theorem Refused.cast_eq (h : value.Refused target) :
    value.cast target position = value.describe >>= fun shown =>
      .error (.semantic position (.invalidCast shown value.type target)) := by
  rw [cast, if_neg h.type_ne, (convert?_eq_none_iff h.type_ne).2 h]

/-- What is not refused becomes a value of the type. -/
theorem cast_of_not_refused (htype : value.type ≠ target) (h : ¬ value.Refused target) :
    ∃ result, value.cast target position = .ok result ∧ result.type = target := by
  rw [cast, if_neg htype]
  cases hconvert : value.convert? target with
  | none => exact absurd ((convert?_eq_none_iff htype).1 hconvert) h
  | some result => exact ⟨result, rfl, type_of_convert? hconvert⟩

/-- An integer that cannot be shown cannot be converted to a float or a text either. -/
theorem Unshown.refused (h : value.Unshown) (htarget : target = .float ∨ target = .string) :
    value.Refused target := by
  obtain ⟨n, rfl, hlong⟩ := h
  rcases htarget with rfl | rfl
  · exact .tooLarge (Nat.le_trans overflow_le_ten_pow hlong)
  · exact .tooLong hlong

theorem Unshown.cast_eq (h : value.Unshown) (htarget : target = .float ∨ target = .string) :
    value.cast target position = .error (.tooManyDigits none) := by
  rw [(h.refused htarget).cast_eq, h.describe_eq]
  rfl

theorem Refused.target_of_unshown (h : value.Refused target) (hunshown : value.Unshown) :
    target = .float ∨ target = .string := by
  obtain ⟨n, rfl, -⟩ := hunshown
  cases h with
  | tooLarge => exact .inl rfl
  | tooLong => exact .inr rfl

end Value

/-- **What a cast does.** It yields a value of the type, the same one if it was of that type
already; or the value is refused and shown in an error at the position of the cast; or it is an
integer of too many digits that was to become a float or a text, which is neither converted nor
shown. -/
theorem cast_outcomes (value : Value) (target : BasicType) (position : Position) :
    ((∃ result, value.cast target position = .ok result ∧ ¬ value.Refused target ∧
          result.type = target ∧ (value.type = target → result = value)) ∨
      (∃ shown, value.cast target position =
            .error (.semantic position (.invalidCast shown value.type target)) ∧
          value.Refused target ∧ value.describe = .ok shown) ∨
      value.cast target position = .error (.tooManyDigits none)) ∧
    (value.cast target position = .error (.tooManyDigits none) ↔
      (∃ n : Int, value = .int n ∧ 10 ^ digitLimit ≤ n.natAbs) ∧
        (target = .float ∨ target = .string)) := by
  by_cases htype : value.type = target
  · have hcast : value.cast target position = .ok value := by rw [Value.cast, if_pos htype]
    have hrefused : ¬ value.Refused target := fun h => h.type_ne htype
    refine ⟨.inl ⟨value, hcast, hrefused, htype, fun _ => rfl⟩, ?_⟩
    rw [hcast]
    exact iff_of_false (by simp) fun h => hrefused (Value.Unshown.refused h.1 h.2)
  -- a value of another type is refused or it is not, and only a refused one has to be shown
  by_cases hrefused : value.Refused target
  · by_cases hunshown : value.Unshown
    · have htarget := hrefused.target_of_unshown hunshown
      have hcast : value.cast target position = .error (.tooManyDigits none) :=
        hunshown.cast_eq htarget
      exact ⟨.inr (.inr hcast), iff_of_true hcast ⟨hunshown, htarget⟩⟩
    · obtain ⟨shown, hshown⟩ := Value.exists_describe_eq hunshown
      have hcast : value.cast target position =
          .error (.semantic position (.invalidCast shown value.type target)) := by
        rw [hrefused.cast_eq, hshown]
        rfl
      refine ⟨.inr (.inl ⟨shown, hcast, hrefused, hshown⟩), ?_⟩
      rw [hcast]
      exact iff_of_false (by simp [Fault.semantic]) fun h => hunshown h.1
  · obtain ⟨result, hcast, hresult⟩ :
        ∃ result, value.cast target position = .ok result ∧ result.type = target :=
      Value.cast_of_not_refused htype hrefused
    refine ⟨.inl ⟨result, hcast, hrefused, hresult, fun h => absurd h htype⟩, ?_⟩
    rw [hcast]
    exact iff_of_false (by simp) fun h => hrefused (Value.Unshown.refused h.1 h.2)

/-- The least integer that cannot be shown: its cast is not an error of the language. -/
theorem ten_pow_digitLimit_cast :
    (Value.int (10 ^ digitLimit)).cast .float ⟨1, 1⟩ = .error (.tooManyDigits none) :=
  Value.Unshown.cast_eq ⟨10 ^ digitLimit, rfl, by simp⟩ (.inl rfl)

end FLang
