import FLang.Embedded.Standard
import FLang.Proofs.Runs.Steps

/-!
# Division and divisibility of integers

The quotient of two integers and `modulo`, which tells whether one is divisible by the other, are
one arithmetic (`division_agrees_with_modulo`). The quotient is rounded toward zero, so that what it
leaves of the dividend is smaller than the divisor and has the sign of the dividend (`Truncates`);
that determines it. `modulo` looks at the remainder of the quotient rounded down, which has the sign
of the divisor. The two remainders differ, but one is zero exactly if the other is.

By zero there is neither a quotient nor an answer.
-/

namespace FLang

open Eval Evaluation

/-- `q` is the quotient of two integers rounded toward zero: what it leaves of the dividend is
smaller than the divisor, and zero or of the sign of the dividend. -/
structure Truncates (a b q : Int) : Prop where
  small : (a - q * b).natAbs < b.natAbs
  sign : a - q * b = 0 ∨ (a - q * b).sign = a.sign

/-! ## Quotients -/

theorem truncates_tdiv (a : Int) {b : Int} (hb : b ≠ 0) : Truncates a b (a.tdiv b) := by
  have hrest : a - a.tdiv b * b = a.tmod b := by
    rw [Int.tdiv_mul_self]
    omega
  constructor
  · rw [hrest, Int.natAbs_tmod]
    exact Nat.mod_lt _ (Int.natAbs_pos.2 hb)
  · rw [hrest, ← Int.sign_eq_zero_iff_zero, Int.sign_tmod]
    split
    · exact .inl rfl
    · exact .inr rfl

namespace Truncates

variable {a b q q' : Int}

theorem divisor_ne_zero (h : Truncates a b q) : b ≠ 0 := by
  rintro rfl
  exact Nat.not_lt_zero _ h.small

/-- What is left lies on the dividend's side of zero. -/
theorem side (h : Truncates a b q) :
    (0 ≤ a → 0 ≤ a - q * b) ∧ (a ≤ 0 → a - q * b ≤ 0) := by
  rcases h.sign with hzero | hsign
  · omega
  · rw [← Int.sign_nonneg_iff, ← hsign, Int.sign_nonneg_iff, ← Int.sign_nonpos_iff, ← hsign,
      Int.sign_nonpos_iff]
    exact ⟨id, id⟩

/-- There is one quotient only. -/
theorem unique (h : Truncates a b q) (h' : Truncates a b q') : q = q' := by
  -- what both leave is on one side of zero, so it differs by less than the divisor
  have hclose : ((q' - q) * b).natAbs < b.natAbs := by
    have hdiff : (q' - q) * b = (a - q * b) - (a - q' * b) := by
      rw [Int.sub_mul]
      omega
    have hsmall := h.small
    have hsmall' := h'.small
    have hside := h.side
    have hside' := h'.side
    rw [hdiff]
    omega
  rw [Int.natAbs_mul] at hclose
  have hnone : (q' - q).natAbs < 1 :=
    Nat.lt_of_mul_lt_mul_right (a := b.natAbs) (by rwa [Nat.one_mul])
  omega

theorem eq_tdiv (h : Truncates a b q) : q = a.tdiv b :=
  h.unique (truncates_tdiv a h.divisor_ne_zero)

/-- Nothing is left exactly if nothing is left when the quotient is rounded down. -/
theorem rest_eq_zero_iff (h : Truncates a b q) : a - q * b = 0 ↔ a.fmod b = 0 := by
  obtain rfl := h.eq_tdiv
  rw [← Int.dvd_iff_fmod_eq_zero, Int.dvd_iff_tmod_eq_zero, Int.tdiv_mul_self]
  omega

end Truncates

/-! ## Values -/

/-- Dividing absolute values and changing the sign is rounding toward zero. -/
theorem Value.quotient_eq_tdiv (a b : Int) : Value.quotient a b = a.tdiv b := by
  obtain ⟨m, ha⟩ := Int.eq_nat_or_neg a
  obtain ⟨n, hb⟩ := Int.eq_nat_or_neg b
  -- zero has two signs here, and its quotient is zero with either of them
  by_cases hzero : m = 0 ∨ n = 0
  · rcases hzero with rfl | rfl <;> rcases ha with rfl | rfl <;> rcases hb with rfl | rfl <;>
      simp [Value.quotient]
  have hnonneg : ∀ k : Nat, ¬ (k : Int) < 0 := fun k => by omega
  have hm : 0 < m := by omega
  have hn : 0 < n := by omega
  rcases ha with rfl | rfl <;> rcases hb with rfl | rfl
  · simp [Value.quotient, hnonneg]
  · simp [Value.quotient, hnonneg, hn]
  · simp [Value.quotient, hnonneg, hm]
  · simp [Value.quotient, hm, hn]

/-- The quotients of integers are those that are rounded toward zero. -/
theorem Value.calculate_divide_eq_ok_iff {a b : Int} {position : Position} {value : Value} :
    Value.calculate .divide (.int a) (.int b) position = .ok value ↔
      ∃ q, value = .int q ∧ Truncates a b q := by
  have hcalculate : Value.calculate .divide (.int a) (.int b) position =
      if b = 0 then .error (.semantic position .divisionByZero) else .ok (.int (a.tdiv b)) := by
    rw [← Value.quotient_eq_tdiv]
    by_cases hb : b = 0 <;>
      simp [Value.calculate, Value.compute?, Value.computed?, Value.isZero, hb]
  rw [hcalculate]
  constructor
  · intro h
    split at h
    · cases h
    · next hb => exact ⟨_, (Except.ok.inj h).symm, truncates_tdiv a hb⟩
  · rintro ⟨q, rfl, h⟩
    rw [if_neg h.divisor_ne_zero, h.eq_tdiv]

theorem Value.calculate_divide_zero (a : Int) (position : Position) :
    Value.calculate .divide (.int a) (.int 0) position =
      .error (.semantic position .divisionByZero) :=
  rfl

/-- The product of the quotient and the divisor is the dividend exactly if nothing is left. -/
theorem Value.relate_product (a b q : Int) (position : Position) :
    Value.relate .equal (.int (q * b)) (.int a) position = .ok (decide (a - q * b = 0)) := by
  have hequal : (q * b == a) = decide (a - q * b = 0) := by
    rw [Bool.eq_iff_iff, beq_iff_eq, decide_eq_true_eq]
    omega
  exact congrArg Except.ok hequal

/-- `modulo` answers whether the dividend is divisible, and refuses to divide by zero. -/
theorem callEmbedded_modulo (a b : Int) (position : Position) (m : Machine) :
    callEmbedded Embedded.modulo [.int a, .int b] position m =
      if b = 0 then
        (.fault (.semantic position
          (.embeddedFunctionFailed "modulo" "integer modulo by zero")), m)
      else (.value (.bool (decide (a.fmod b = 0))), m) := by
  have hcheck : checkArguments Embedded.modulo position 1 [.int a, .int b] = .ok () := rfl
  have hquiet : emit "" m = (.value (), m) := by simp [emit]
  rw [callEmbedded, hcheck, ofExcept_ok_bind]
  by_cases hb : b = 0
  · have hreply : Embedded.modulo.behavior [.int a, .int b] =
        .refuse "integer modulo by zero" := if_pos hb
    rw [hreply, if_pos hb]
    exact bind_of_value hquiet
  · have hreply : Embedded.modulo.behavior [.int a, .int b] = .value (.bool (a.fmod b == 0)) :=
      if_neg hb
    rw [hreply, if_neg hb]
    exact bind_of_value hquiet

/-! ## Expressions -/

section
variable {setting : Setting} {invoke : Invoke} {left right : Expression} {a b : Value}
  {m m₁ m₂ : Machine}

theorem evaluate_arithmetic (op : Arithmetic) (position : Position)
    (hleft : evaluate setting invoke left m = (.value a, m₁))
    (hright : evaluate setting invoke right m₁ = (.value b, m₂)) :
    evaluate setting invoke (.binary position (.arithmetic op) left right) m =
      ofExcept (Value.calculate op a b position) m₂ := by
  rw [evaluate, bind_of_value hleft, bind_of_value hright]

theorem evaluate_relation (op : Relation) (position : Position)
    (hleft : evaluate setting invoke left m = (.value a, m₁))
    (hright : evaluate setting invoke right m₁ = (.value b, m₂)) :
    evaluate setting invoke (.binary position (.relation op) left right) m =
      ofExcept ((Value.relate op a b position).map .bool) m₂ := by
  rw [evaluate, bind_of_value hleft, bind_of_value hright, ofExcept_bind_pure]

/-- A call of a function that is embedded evaluates its arguments and gives them to it. -/
theorem evaluate_call_embedded {function : Embedded} {name : String} (position : Position)
    (hcallee : setting.callee position name 2 = .ok (.embedded function))
    (hleft : evaluate setting invoke left m = (.value a, m₁))
    (hright : evaluate setting invoke right m₁ = (.value b, m₂)) :
    evaluate setting invoke (.call position name [left, right]) m =
      callEmbedded function [a, b] position m₂ := by
  have hlast : evaluateAll setting invoke [right] m₁ = (.value [b], m₂) := by
    rw [evaluateAll, bind_of_value hright, evaluateAll]
    rfl
  have hvalues : evaluateAll setting invoke [left, right] m = (.value [a, b], m₂) := by
    rw [evaluateAll, bind_of_value hleft, bind_of_value hlast]
    rfl
  rw [evaluate, callNamed_eq, List.length_cons, List.length_singleton, hcallee, ofExcept_ok_bind,
    bind_of_value hvalues]
  rfl

end

/-- A program that is accepted does not define what is embedded. -/
theorem Setting.callee_embedded {program : Program} {registry : Registry} {maxDepth : Nat}
    {setting : Setting} (hmake : Setting.make program registry maxDepth = .ok setting)
    {name : String} {function : Embedded} (hfind : registry.find? name = some function)
    {count : Nat} (harity : function.arity = some count) (position : Position) :
    setting.callee position name count = .ok (.embedded function) := by
  rw [Setting.make] at hmake
  split at hmake
  · cases hmake
  next hother =>
  obtain rfl := Except.ok.inj hmake
  have hnone : program.find? name = none := by
    rw [Program.find?, List.find?_eq_none]
    intro other hmem hname
    have hfree := List.find?_eq_none.1 hother other hmem
    rw [Registry.contains, beq_iff_eq.1 hname, hfind] at hfree
    exact hfree rfl
  simp [Setting.callee, hnone, hfind, harity]

/-- **Division and `modulo` are one arithmetic.** An integer is the value of a quotient exactly if
it is the quotient rounded toward zero. For operands that evaluate to `a` and `b`, in this order,
the quotient and the call of `modulo` end in the same machine. If `b` is not zero, `modulo` answers
whether the quotient leaves nothing of `a`, and multiplying the quotient with `b` again is equal to
`a` in the same case. If `b` is zero, the quotient and the call both end with an error of the
program. -/
theorem division_agrees_with_modulo {program : Program} {registry : Registry} {maxDepth : Nat}
    {setting : Setting} (hmake : Setting.make program registry maxDepth = .ok setting)
    (hmodulo : registry.find? "modulo" = some Embedded.modulo) (invoke : Invoke) (a b : Int)
    (position : Position) :
    (∀ value, Value.calculate .divide (.int a) (.int b) position = .ok value ↔
      ∃ q, value = .int q ∧ Truncates a b q) ∧
    ∀ (left right : Expression) (m m₁ m₂ : Machine),
      evaluate setting invoke left m = (.value (.int a), m₁) →
      evaluate setting invoke right m₁ = (.value (.int b), m₂) →
      (b ≠ 0 → ∃ q, Truncates a b q ∧
        evaluate setting invoke (.binary position (.arithmetic .divide) left right) m =
          (.value (.int q), m₂) ∧
        evaluate setting invoke (.call position "modulo" [left, right]) m =
          (.value (.bool (decide (a - q * b = 0))), m₂) ∧
        ∀ (left' right' : Expression) (m₃ m₄ : Machine) (position' position'' : Position),
          evaluate setting invoke right' m₂ = (.value (.int b), m₃) →
          evaluate setting invoke left' m₃ = (.value (.int a), m₄) →
          evaluate setting invoke
            (.binary position'' (.relation .equal)
              (.binary position' (.arithmetic .multiply)
                (.binary position (.arithmetic .divide) left right) right') left') m =
            (.value (.bool (decide (a - q * b = 0))), m₄)) ∧
      (b = 0 →
        evaluate setting invoke (.binary position (.arithmetic .divide) left right) m =
          (.fault (.semantic position .divisionByZero), m₂) ∧
        evaluate setting invoke (.call position "modulo" [left, right]) m =
          (.fault (.semantic position
            (.embeddedFunctionFailed "modulo" "integer modulo by zero")), m₂)) := by
  refine ⟨fun _ => Value.calculate_divide_eq_ok_iff, fun left right m m₁ m₂ hleft hright => ?_⟩
  have hcallee : setting.callee position "modulo" 2 = .ok (.embedded Embedded.modulo) :=
    Setting.callee_embedded hmake hmodulo rfl position
  -- both constructs evaluate their operands in the same order, and end in the same machine
  have hquotient := evaluate_arithmetic .divide position hleft hright
  have hcall := evaluate_call_embedded position hcallee hleft hright
  rw [callEmbedded_modulo] at hcall
  constructor
  · intro hb
    have htruncates := truncates_tdiv a hb
    have hdivide : evaluate setting invoke (.binary position (.arithmetic .divide) left right) m =
        (.value (.int (a.tdiv b)), m₂) := by
      rw [hquotient, Value.calculate_divide_eq_ok_iff.2 ⟨_, rfl, htruncates⟩]
      rfl
    refine ⟨a.tdiv b, htruncates, hdivide, ?_, ?_⟩
    · rw [hcall, if_neg hb]
      -- the remainder of `modulo` is that of the floor; it is zero in the same cases
      simp only [htruncates.rest_eq_zero_iff]
    · intro left' right' m₃ m₄ position' position'' hright' hleft'
      have hproduct : evaluate setting invoke
          (.binary position' (.arithmetic .multiply)
            (.binary position (.arithmetic .divide) left right) right') m =
          (.value (.int (a.tdiv b * b)), m₃) :=
        evaluate_arithmetic .multiply position' hdivide hright'
      rw [evaluate_relation .equal position'' hproduct hleft', Value.relate_product]
      rfl
  · rintro rfl
    rw [Value.calculate_divide_zero] at hquotient
    rw [if_pos rfl] at hcall
    exact ⟨hquotient, hcall⟩

/-- The dividend is negative, so its quotient by two is rounded up. -/
theorem division_agrees_with_modulo_negative :
    let setting : Setting := ⟨⟨[]⟩, .standard, 1⟩
    let left : Expression := .negate ⟨1, 1⟩ (.literal ⟨1, 2⟩ (.int 7))
    let right : Expression := .literal ⟨1, 6⟩ (.int 2)
    Setting.make ⟨[]⟩ .standard 1 = .ok setting ∧
    Registry.standard.find? "modulo" = some Embedded.modulo ∧
    evaluate setting (invoke setting 0) left {} = (.value (.int (-7)), {}) ∧
    evaluate setting (invoke setting 0) right {} = (.value (.int 2), {}) ∧
    ∃ q, q = -3 ∧ Truncates (-7) 2 q ∧
      evaluate setting (invoke setting 0) (.binary ⟨1, 4⟩ (.arithmetic .divide) left right) {} =
        (.value (.int q), {}) ∧
      evaluate setting (invoke setting 0) (.call ⟨1, 4⟩ "modulo" [left, right]) {} =
        (.value (.bool (decide (-7 - q * 2 = 0))), {}) := by
  intro setting left right
  have hmake : Setting.make ⟨[]⟩ .standard 1 = .ok setting := rfl
  have hfind : Registry.standard.find? "modulo" = some Embedded.modulo := rfl
  have hleft : evaluate setting (invoke setting 0) left {} = (.value (.int (-7)), {}) := rfl
  have hright : evaluate setting (invoke setting 0) right {} = (.value (.int 2), {}) := rfl
  obtain ⟨q, htruncates, hdivide, hmodulo, -⟩ :=
    ((division_agrees_with_modulo hmake hfind (invoke setting 0) (-7) 2 ⟨1, 4⟩).2
      left right {} {} {} hleft hright).1 (by decide)
  exact ⟨hmake, hfind, hleft, hright, q, htruncates.eq_tdiv, htruncates, hdivide, hmodulo⟩

end FLang
