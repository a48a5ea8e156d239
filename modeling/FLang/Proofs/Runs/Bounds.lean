import FLang.Proofs.Runs.Balance

/-!
# Bounds

The bound on calls and loops has no meaning of its own: a run that ends before its bound is reached
ends in the same way with every larger bound.

* `Eval.Completes` — a computation does what another one does, if that one ends;
* `invoke_completes` — a call with a larger bound completes the call with a smaller one.
-/

namespace FLang

open Eval Evaluation

/-- The second computation ends as the first one does, if the first one ends. -/
structure Eval.Completes {α : Type} (x y : Eval α) : Prop where
  balanced : x.Balanced
  eq_of_ended : ∀ m, (x m).1 ≠ .exhausted → y m = x m

namespace Eval.Completes

variable {α β : Type} {x y : Eval α}

theorem refl (h : x.Balanced) : x.Completes x := ⟨h, fun _ _ => rfl⟩

/-- Whatever is done, it completes what does not end. -/
theorem exhausted (y : Eval α) : Eval.exhausted.Completes y :=
  ⟨.exhausted, fun _ h => absurd rfl h⟩

/-- Sequences are completed, if their parts are. -/
theorem bind {f g : α → Eval β} (h : x.Completes y) (hf : ∀ a, (f a).Completes (g a)) :
    (x >>= f).Completes (y >>= g) := by
  refine ⟨h.balanced.bind fun a => (hf a).balanced, fun m hended => ?_⟩
  rcases hxm : x m with ⟨a | fault | _, m'⟩
  · have hym : y m = (.value a, m') := (h.eq_of_ended m (by simp [hxm])).trans hxm
    rw [Eval.bind_of_value hxm] at hended ⊢
    rw [Eval.bind_of_value hym]
    exact (hf a).eq_of_ended m' hended
  · have hym : y m = (.fault fault, m') := (h.eq_of_ended m (by simp [hxm])).trans hxm
    rw [Eval.bind_of_fault hxm, Eval.bind_of_fault hym]
  · rw [Eval.bind_of_exhausted hxm] at hended
    exact absurd rfl hended

/-- A scope is closed in the same way with either bound. -/
theorem withScope (h : x.Completes y) (returnType : Option ValueType) :
    (Eval.withScope returnType x).Completes (Eval.withScope returnType y) := by
  refine ⟨h.balanced.withScope returnType, fun m hended => ?_⟩
  rw [h.balanced.withScope_eq] at hended ⊢
  have hbody := h.eq_of_ended (m.opened returnType) hended
  have hsize : m.arena.size < (y (m.opened returnType)).2.arena.size := by
    rw [hbody]
    exact h.balanced.size_lt m returnType
  rw [Eval.withScope_eq hsize, hbody]

theorem whileActive (h : x.Completes y) (name : String) :
    (Eval.whileActive name x).Completes (Eval.whileActive name y) := by
  refine ⟨h.balanced.whileActive name, fun m hended => ?_⟩
  have hbody : y { m with calls := m.calls.push name } = x { m with calls := m.calls.push name } :=
    h.eq_of_ended _ hended
  simp only [Eval.whileActive, hbody]

end Eval.Completes

/-- Completion as a relation that evaluation keeps. -/
def completion : Congruence where
  rel x y := x.Completes y
  pure a := .refl (balance.pure a)
  fail fault := .refl (balance.fail fault)
  bind := .bind
  readVariable name position := .refl (balance.readVariable name position)
  declare name value type position := .refl (balance.declare name value type position)
  assign name value position := .refl (balance.assign name value position)
  emit text := .refl (balance.emit text)
  giveBack value position := .refl (balance.giveBack value position)
  isReturning := .refl balance.isReturning
  takeReturned := .refl balance.takeReturned
  nested h := h.withScope none

theorem completion_repeats {bound bound' : Nat} (h : bound ≤ bound') :
    completion.Repeats bound bound' :=
  completion.repeats_longer Eval.Completes.exhausted h

/-- **A larger bound changes nothing for calls that end.** -/
theorem invoke_completes (setting : Setting) {bound bound' : Nat} (h : bound ≤ bound')
    (function : Function) (arguments : List Value) (position : Position) :
    (invoke setting bound function arguments position).Completes
      (invoke setting bound' function arguments position) := by
  induction bound generalizing bound' function arguments position with
  | zero => exact .exhausted _
  | succ bound ih =>
    obtain ⟨bound', rfl⟩ := Nat.exists_eq_add_of_lt h
    have hle : bound ≤ bound + bound' := Nat.le_add_right ..
    have hlinks : completion.Links setting setting (invoke setting bound)
        (invoke setting (bound + bound')) bound (bound + bound') :=
      ⟨rfl, rfl, fun function _ => ih hle function, completion_repeats hle⟩
    have henter : (enter setting (invoke setting bound) bound function arguments position).Completes
        (enter setting (invoke setting (bound + bound')) (bound + bound') function arguments
          position) :=
      hlinks.enter function arguments position
    have hperform := ((henter.withScope (some function.returnType)).bind fun _ =>
      completion.finishCall function).whileActive function.name
    refine ⟨invoke_balanced setting _ function arguments position, fun m hended => ?_⟩
    rw [invoke_succ] at hended ⊢
    rw [invoke_succ]
    by_cases hdepth : m.calls.depth function.name ≥ setting.maxDepth
    · rw [if_pos hdepth, if_pos hdepth]
    · rw [if_neg hdepth] at hended ⊢
      rw [if_neg hdepth]
      exact hperform.eq_of_ended m hended

end FLang
