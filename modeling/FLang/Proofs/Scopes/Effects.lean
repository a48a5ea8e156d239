import FLang.Machine
import FLang.Proofs.Scopes.Region

/-!
# What a computation does to the scopes

A `Discipline` says what holds of a machine before a computation and which changes of its scopes are
allowed. `Discipline.Follows` says that a computation keeps to one however it ends, and also how it
may end: with which values and with which faults. The rules for the operations of `Eval` hold for
every discipline, or for the one of two:

* `still` — the open scopes and the current one do not change. This is what expressions keep to;
* `within base` — the computation runs inside the region of a call and changes variables of that
  region only. This is what the body of a function keeps to.

The two meet in `follows_call`: a body that keeps within the region of its call is a call that
leaves the scopes as they are.
-/

namespace FLang

/-- How an outcome may look: a value that satisfies `post`, or a fault that is `ok`. -/
def Outcome.Meets {α : Type} (ok : Fault → Prop) (post : α → Prop) : Outcome α → Prop
  | .value a => post a
  | .fault f => ok f
  | .exhausted => True

/-- What a computation may rely on and what it may do, as far as scopes are concerned. -/
structure Discipline where
  /-- What holds before each step. -/
  inv : Machine → Prop
  /-- What a step may do. -/
  step : Machine → Machine → Prop
  /-- Only scopes matter. -/
  step_of_eq : ∀ {m m'}, m'.arena = m.arena → m'.scope = m.scope → step m m'
  /-- Steps can be made one after the other. -/
  trans : ∀ {m m' m''}, step m m' → step m' m'' → step m m''
  /-- What holds before a step holds after it. -/
  keeps : ∀ {m m'}, inv m → step m m' → inv m'

/-- A computation keeps to a discipline, and ends with a value that satisfies `post`, with a fault
that is `ok`, or by exhausting its bound. -/
def Discipline.Follows {α : Type} (D : Discipline) (ok : Fault → Prop) (post : α → Prop)
    (x : Eval α) : Prop :=
  ∀ m, D.inv m → D.step m (x m).2 ∧ (x m).1.Meets ok post

namespace Discipline.Follows

variable {α β : Type} {D : Discipline} {ok : Fault → Prop} {post : α → Prop} {x : Eval α}

/-! ## Rules for every discipline -/

/-- A computation that has nothing to do with scopes. -/
theorem of_eq (h : ∀ m, (x m).2.arena = m.arena ∧ (x m).2.scope = m.scope ∧ (x m).1.Meets ok post) :
    D.Follows ok post x := by
  intro m _
  obtain ⟨harena, hscope, hmeets⟩ := h m
  exact ⟨D.step_of_eq harena hscope, hmeets⟩

theorem pure {a : α} (h : post a) : D.Follows ok post (pure a) :=
  of_eq fun _ => ⟨rfl, rfl, h⟩

theorem fail {fault : Fault} (h : ok fault) : D.Follows ok post (Eval.fail fault) :=
  of_eq fun _ => ⟨rfl, rfl, h⟩

theorem exhausted : D.Follows ok post Eval.exhausted :=
  of_eq fun _ => ⟨rfl, rfl, trivial⟩

theorem isReturning : D.Follows ok (fun _ => True) Eval.isReturning :=
  of_eq fun _ => ⟨rfl, rfl, trivial⟩

theorem takeReturned : D.Follows ok (fun _ => True) Eval.takeReturned :=
  of_eq fun _ => ⟨rfl, rfl, trivial⟩

/-- A result that is known follows every discipline, if the conditions hold of it. -/
theorem ofExcept {result : Except Fault α} (hvalue : ∀ a, result = .ok a → post a)
    (hfault : ∀ fault, result = .error fault → ok fault) :
    D.Follows ok post (Eval.ofExcept result) := by
  cases result with
  | ok a => exact pure (hvalue a rfl)
  | error fault => exact fail (hfault fault rfl)

/-- A question about the machine. -/
theorem ask {f : Machine → Except Fault α}
    (hfault : ∀ m, D.inv m → ∀ fault, f m = .error fault → ok fault) :
    D.Follows ok (fun _ => True) (Eval.ask f) := by
  intro m hm
  exact ofExcept (D := D) (fun _ _ => trivial) (hfault m hm) m hm

/-- Sequences follow a discipline, if their parts do. -/
theorem bind {post' : β → Prop} {f : α → Eval β} (hx : D.Follows ok post x)
    (hf : ∀ a, post a → D.Follows ok post' (f a)) : D.Follows ok post' (x >>= f) := by
  intro m hm
  obtain ⟨hstep, hmeets⟩ := hx m hm
  rw [show (x >>= f) m = Eval.bind x f m from rfl, Eval.bind]
  rcases hxm : x m with ⟨a | fault | _, m'⟩
  all_goals rw [hxm] at hstep hmeets
  · obtain ⟨hstep', hmeets'⟩ := hf a hmeets m' (D.keeps hm hstep)
    exact ⟨D.trans hstep hstep', hmeets'⟩
  · exact ⟨hstep, hmeets⟩
  · exact ⟨hstep, trivial⟩

theorem map {post' : β → Prop} {f : α → β} (hx : D.Follows ok post x)
    (hf : ∀ a, post a → post' (f a)) : D.Follows ok post' (f <$> x) :=
  hx.bind fun a ha => pure (hf a ha)

theorem ite {c : Prop} [Decidable c] {y : Eval α} (hx : c → D.Follows ok post x)
    (hy : ¬ c → D.Follows ok post y) : D.Follows ok post (if c then x else y) := by
  by_cases hc : c
  · rw [if_pos hc]
    exact hx hc
  · rw [if_neg hc]
    exact hy hc

/-- Less is promised of the value, and more is asked for before. -/
theorem weaken {D' : Discipline} {post' : α → Prop} (hx : D.Follows ok post x)
    (hinv : ∀ m, D'.inv m → D.inv m) (hstep : ∀ m m', D'.inv m → D.step m m' → D'.step m m')
    (hpost : ∀ a, post a → post' a) : D'.Follows ok post' x := by
  intro m hm
  obtain ⟨hs, hmeets⟩ := hx m (hinv m hm)
  refine ⟨hstep m _ hm hs, ?_⟩
  revert hmeets
  cases (x m).1 with
  | value a => exact hpost a
  | fault fault => exact id
  | exhausted => exact id

/-- A call is active during a computation and not afterwards. -/
theorem whileActive {name : String} (hx : D.Follows ok post x) :
    D.Follows ok post (Eval.whileActive name x) := by
  intro m hm
  have hpush : D.step m { m with calls := m.calls.push name } := D.step_of_eq rfl rfl
  obtain ⟨hstep, hmeets⟩ := hx _ (D.keeps hm hpush)
  exact ⟨D.trans (D.trans hpush hstep) (D.step_of_eq rfl rfl), hmeets⟩

/-- A loop does as often as it likes what its condition and its body do. -/
theorem iterate {condition : Eval Bool} {body : Eval Unit}
    (hcondition : D.Follows ok (fun _ => True) condition)
    (hbody : D.Follows ok (fun _ => True) body) (bound : Nat) :
    D.Follows ok (fun _ => True) (Eval.iterate condition body bound) := by
  induction bound with
  | zero => exact exhausted
  | succ bound ih =>
    intro m hm
    obtain ⟨hstep, hmeets⟩ := hcondition m hm
    unfold Eval.iterate
    rcases hc : condition m with ⟨(_ | _) | fault | _, m₁⟩
    all_goals rw [hc] at hstep hmeets
    · exact ⟨hstep, trivial⟩
    · -- the condition holds: the body runs, and then the loop again
      obtain ⟨hstep₂, hmeets₂⟩ := hbody m₁ (D.keeps hm hstep)
      rcases hb : body m₁ with ⟨_ | fault | _, m₂⟩
      all_goals rw [hb] at hstep₂ hmeets₂
      all_goals simp only [hb]
      · by_cases hreturning : m₂.pending.isSome = true
        · rw [if_pos hreturning]
          exact ⟨D.trans hstep hstep₂, trivial⟩
        · rw [if_neg hreturning]
          obtain ⟨hstep₃, hmeets₃⟩ := ih m₂ (D.keeps hm (D.trans hstep hstep₂))
          exact ⟨D.trans hstep (D.trans hstep₂ hstep₃), hmeets₃⟩
      · exact ⟨D.trans hstep hstep₂, hmeets₂⟩
      · exact ⟨D.trans hstep hstep₂, trivial⟩
    · exact ⟨hstep, hmeets⟩
    · exact ⟨hstep, trivial⟩

end Discipline.Follows

/-! ## Scopes that do not change -/

/-- The open scopes and the current one stay the same. What is known of them goes with it. -/
def still (known : Arena → Option Nat → Prop) : Discipline where
  inv m := known m.arena m.scope
  step m m' := m'.arena = m.arena ∧ m'.scope = m.scope
  step_of_eq harena hscope := ⟨harena, hscope⟩
  trans h h' := ⟨h'.1.trans h.1, h'.2.trans h.2⟩
  keeps hm h := by rw [h.1, h.2]; exact hm

/-! ## Scopes of a region -/

/-- The current scope lies in the region that starts at `base`, and only variables of that region
are changed. -/
def within (base : Nat) : Discipline where
  inv m := ∃ index, m.scope = some index ∧ m.arena.Region base index
  step m m' := m'.scope = m.scope ∧ m.arena.Edits base m'.arena
  step_of_eq harena hscope := ⟨hscope, harena ▸ .refl ..⟩
  trans h h' := ⟨h'.1.trans h.1, h.2.trans h'.2⟩
  keeps := by
    rintro m m' ⟨index, hindex, hregion⟩ ⟨hscope, hedits⟩
    exact ⟨index, hscope.trans hindex, hedits.region hregion⟩

section
variable {α : Type} {base : Nat} {ok : Fault → Prop} {post : α → Prop} {x : Eval α}
  {known : Arena → Option Nat → Prop}

/-- What leaves the scopes as they are can be done in any region. -/
theorem Discipline.Follows.within (hx : (still known).Follows ok post x)
    (hknown : ∀ arena index, arena.Region base index → known arena (some index)) :
    (within base).Follows ok post x := by
  refine hx.weaken ?_ ?_ fun _ => id
  · rintro m ⟨index, hindex, hregion⟩
    rw [show (still known).inv m = known m.arena m.scope from rfl, hindex]
    exact hknown _ _ hregion
  · rintro m m' - ⟨harena, hscope⟩
    exact (FLang.within base).step_of_eq harena hscope

/-- Changing the arena inside a region. -/
theorem follows_updateArena {f : Arena → Option Nat → Except Fault Arena}
    (hf : ∀ arena index, arena.Region base index →
      (∃ changed, f arena (some index) = .ok changed ∧ arena.Edits base changed) ∨
        ∃ fault, f arena (some index) = .error fault ∧ ok fault) :
    (within base).Follows ok (fun _ => True) (Eval.updateArena f) := by
  rintro m ⟨index, hindex, hregion⟩
  rcases hf _ _ hregion with ⟨changed, hchanged, hedits⟩ | ⟨fault, hfault, hok⟩
  · rw [← hindex] at hchanged
    simp only [Eval.updateArena, hchanged]
    exact ⟨⟨rfl, hedits⟩, trivial⟩
  · rw [← hindex] at hfault
    simp only [Eval.updateArena, hfault]
    exact ⟨(within base).step_of_eq rfl rfl, hok⟩

/-- A scope inside a region is opened and closed again. -/
theorem follows_withScope (hx : (within base).Follows ok post x) :
    (within base).Follows ok post (Eval.withScope none x) := by
  rintro m ⟨index, hindex, hregion⟩
  obtain ⟨⟨-, hedits⟩, hmeets⟩ := hx
    { m with arena := m.arena.openScope m.scope none, scope := some m.arena.size }
    ⟨m.arena.size, rfl, hindex ▸ hregion.openScope⟩
  obtain ⟨closed, hclosed, hedits⟩ := hedits.close_openScope
  simp only [Eval.withScope, hclosed]
  exact ⟨⟨rfl, hedits⟩, hmeets⟩

/-- **A call leaves the scopes as they are**, if its body stays within its region: the region is
closed with it. -/
theorem follows_call {returnType : ValueType}
    (hx : ∀ base, (within base).Follows ok post x) :
    (still known).Follows ok post (Eval.withScope (some returnType) x) := by
  intro m _
  obtain ⟨⟨-, hedits⟩, hmeets⟩ := hx m.arena.size
    { m with arena := m.arena.openScope m.scope (some returnType), scope := some m.arena.size }
    ⟨m.arena.size, rfl, m.arena.region_of_call m.scope returnType⟩
  obtain ⟨closed, hclosed, hedits⟩ := hedits.close_openScope
  simp only [Eval.withScope, hclosed]
  exact ⟨⟨hedits.eq_of_size_le (Nat.le_refl _), rfl⟩, hmeets⟩

end

end FLang
