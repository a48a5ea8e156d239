import FLang.Proofs.Runs.Moments
import FLang.Proofs.Scopes.Evaluation
import FLang.Proofs.Scopes.Types
import FLang.Proofs.Structured.Soundness
import FLang.Session

/-!
# Declared types are honoured

A variable holds values of the type that it was declared with, and a call ends with a value of the
type that its function returns. Both are checked when a program runs: a declaration, an assignment
and a `return` look at the type of the value that they are given.

* `Eval.Repays` — a value that is put on its way inside the region of a call has the type that the
  call returns (`repayment`), so a call ends with a value of that type (`invoke_type`);
* `typing` — every computation of a program keeps its variables well typed;
* `Enters.pending`, `Enters.wellTyped` — at every moment of a run no value is on its way, and the
  variables are well typed;
* `Setting.Visits` — the machines of a run: at its moments, after what is done at them, and between
  the parameters of a call;
* `types_honoured` — the two results for runs.
-/

namespace FLang

open Eval Evaluation

/-! ## What a call owes -/

/-- The region that starts at `base` belongs to a call that returns values of a type, and to no call
inside that one. -/
structure Arena.Owes (base : Nat) (type : ValueType) (arena : Arena) : Prop where
  boundary : ∀ scope, arena.scopes[base]? = some scope → scope.returnType = some type
  inside : ∀ i scope, base < i → arena.scopes[i]? = some scope → scope.returnType = none

namespace Arena.Owes

variable {arena arena' : Arena} {base index : Nat} {type : ValueType}

/-- Variables may change, and what the call owes stays. -/
theorem edits (h : arena.Owes base type) (hedits : Edits base arena arena') :
    arena'.Owes base type := by
  refine ⟨fun scope' hscope' => ?_, fun i scope' hi hscope' => ?_⟩
  · obtain ⟨scope, hscope, -, htype⟩ := hedits.shape base scope' hscope'
    exact htype.trans (h.boundary scope hscope)
  · obtain ⟨scope, hscope, -, htype⟩ := hedits.shape i scope' hscope'
    exact htype.trans (h.inside i scope hi hscope)

/-- A scope that belongs to no call owes nothing of its own. -/
theorem openScope (h : arena.Owes base type) (hregion : arena.Region base index)
    (parent : Option Nat) : (arena.openScope parent none).Owes base type := by
  have hlt := Nat.lt_of_le_of_lt hregion.base_le hregion.lt_size
  refine ⟨fun scope hscope => ?_, fun i scope hi hscope => ?_⟩
  · rcases getElem?_openScope hscope with hold | ⟨heq, -⟩
    · exact h.boundary scope hold
    · omega
  · rcases getElem?_openScope hscope with hold | ⟨-, rfl⟩
    · exact h.inside i scope hi hold
    · rfl

/-- The scope of a call, before anything is opened in it. -/
theorem of_call (arena : Arena) (parent : Option Nat) (type : ValueType) :
    (arena.openScope parent (some type)).Owes arena.size type := by
  refine ⟨fun scope hscope => ?_, fun i scope hi hscope => ?_⟩
  · rcases getElem?_openScope hscope with hold | ⟨-, rfl⟩
    · exact absurd (Array.getElem?_eq_some_iff.1 hold).1 (Nat.lt_irrefl _)
    · rfl
  · rcases getElem?_openScope hscope with hold | ⟨heq, -⟩
    · exact absurd (Array.getElem?_eq_some_iff.1 hold).1 (Nat.not_lt_of_gt hi)
    · omega

/-- Inside a region, the type that its call returns is found. -/
theorem searchUpTo_eq (h : arena.Owes base type) (hregion : arena.Region base index) {fuel : Nat}
    (hfuel : index < fuel) :
    arena.searchUpTo (fun _ scope => scope.returnType) fuel (some index) = .ok (some type) := by
  induction fuel generalizing index with
  | zero => omega
  | succ fuel ih =>
    obtain ⟨scope, hscope⟩ := hregion.exists_scope
    simp only [searchUpTo, hscope]
    rcases Nat.eq_or_lt_of_le hregion.base_le with rfl | hlt
    · simp only [h.boundary scope hscope]
    · have hnone := h.inside index scope hlt hscope
      obtain ⟨parent, hparent, -, hless⟩ := hregion.inside index scope hlt hscope
      obtain ⟨_, hparent', houter⟩ := hregion.outward hscope (by rw [hnone]; rfl)
      obtain rfl := Option.some.inj (hparent.symm.trans hparent')
      simp only [hnone, hparent]
      exact ih houter (by omega)

/-- From everywhere in the region of a call, the type that it returns is found. -/
theorem returnTypeOf_eq (h : arena.Owes base type) (hregion : arena.Region base index) :
    arena.returnTypeOf (some index) = .ok type := by
  have hsize := hregion.lt_size
  have hsearch : arena.search (fun _ scope => scope.returnType) (some index) = .ok (some type) :=
    h.searchUpTo_eq hregion (by omega)
  rw [returnTypeOf, hsearch]
  rfl

end Arena.Owes

/-- A computation inside the region of a call that returns values of a type: if it ends, what it
leaves on its way was there before, or has that type. -/
def Eval.Repays {α : Type} (base : Nat) (type : ValueType) (x : Eval α) : Prop :=
  ∀ ⦃m a m'⦄, (within base).inv m → m.arena.Owes base type → x m = (.value a, m') →
    (within base).step m m' ∧ (m'.pending = m.pending ∨ ∀ v, m'.pending = some v → v.type = type)

namespace Eval.Repays

variable {α β : Type} {base : Nat} {type : ValueType} {x : Eval α}

/-- A computation that changes neither scopes nor what is on its way. -/
theorem of_eq (h : ∀ m a m', x m = (.value a, m') →
    m'.arena = m.arena ∧ m'.scope = m.scope ∧ m'.pending = m.pending) : x.Repays base type := by
  intro m a m' _ _ hx
  obtain ⟨harena, hscope, hpending⟩ := h m a m' hx
  exact ⟨(within base).step_of_eq harena hscope, .inl hpending⟩

theorem ofExcept (result : Except Fault α) : (Eval.ofExcept result).Repays base type := by
  refine of_eq fun m a m' hx => ?_
  cases result <;> cases hx
  exact ⟨rfl, rfl, rfl⟩

/-- A sequence repays what either part of it repays. -/
theorem bind {f : α → Eval β} (hx : x.Repays base type) (hf : ∀ a, (f a).Repays base type) :
    (x >>= f).Repays base type := by
  intro m b m'' hm howes h
  rcases hxm : x m with ⟨a | fault | _, m'⟩
  · rw [Eval.bind_of_value hxm] at h
    obtain ⟨hstep, hpending⟩ := hx hm howes hxm
    obtain ⟨hstep', hpending'⟩ := hf a ((within base).keeps hm hstep) (howes.edits hstep.2) h
    refine ⟨(within base).trans hstep hstep', ?_⟩
    rcases hpending' with hsame | htype
    · rwa [hsame]
    · exact .inr htype
  · rw [Eval.bind_of_fault hxm] at h
    cases h
  · rw [Eval.bind_of_exhausted hxm] at h
    cases h

/-- A change of variables returns nothing. -/
theorem updateArena {f : Arena → Option Nat → Except Fault Arena}
    (hf : ∀ {arena index arena'}, arena.Region base index → f arena (some index) = .ok arena' →
      arena.Edits base arena') : (Eval.updateArena f).Repays base type := by
  rintro m a m' ⟨index, hindex, hregion⟩ _ h
  rcases hchanged : f m.arena m.scope with fault | arena
  · simp only [Eval.updateArena, hchanged] at h
    cases h
  · simp only [Eval.updateArena, hchanged] at h
    cases h
    rw [hindex] at hchanged
    exact ⟨⟨rfl, hf hregion hchanged⟩, .inl rfl⟩

/-- A `return` looks for the type that its call returns. -/
theorem giveBack (value : Value) (position : Position) :
    (Eval.giveBack value position).Repays base type := by
  rintro m a m' ⟨index, hindex, hregion⟩ howes h
  rw [Eval.giveBack_eq, hindex, howes.returnTypeOf_eq hregion] at h
  by_cases htype : value.type = type
  · simp only [if_pos htype] at h
    cases h
    refine ⟨(within base).step_of_eq rfl hindex.symm, .inr ?_⟩
    rintro _ ⟨⟩
    exact htype
  · simp only [if_neg htype] at h
    cases h

/-- A scope inside the region does not change what is owed. -/
theorem withScope (hx : x.Repays base type) : (Eval.withScope none x).Repays base type := by
  rintro m a m' ⟨index, hindex, hregion⟩ howes h
  have hopened : (within base).inv (m.opened none) := by
    refine ⟨m.arena.size, rfl, ?_⟩
    rw [Machine.opened, hindex]
    exact hregion.openScope
  rcases hxm : x (m.opened none) with ⟨outcome, m₁⟩
  rw [Machine.opened] at hxm
  simp only [Eval.withScope, hxm] at h
  split at h
  · next arena hclose =>
    cases h
    obtain ⟨⟨-, hedits⟩, hpending⟩ := hx hopened (howes.openScope hregion m.scope) hxm
    obtain ⟨closed, hclosed, hedits⟩ := hedits.close_openScope
    obtain rfl := Except.ok.inj (hclosed.symm.trans hclose)
    exact ⟨⟨rfl, hedits⟩, hpending⟩
  · cases h

end Eval.Repays

/-- Repaying, as a relation that looks at the first computation only. -/
def repayment (base : Nat) (type : ValueType) : Congruence where
  rel x _ := x.Repays base type
  pure a := .ofExcept (.ok a)
  fail fault := .ofExcept (.error fault)
  bind := .bind
  readVariable name position := by
    refine .of_eq fun m a m' h => ?_
    rw [Eval.readVariable, ask, Eval.ofExcept_apply] at h
    cases (Prod.mk.inj h).2
    exact ⟨rfl, rfl, rfl⟩
  declare name value type position := by
    refine .updateArena fun hregion hdeclare => ?_
    obtain ⟨declared, hok, hedits⟩ | ⟨cause, herror⟩ :=
      hregion.declare_cases name position value type
    · obtain rfl := Except.ok.inj (hok.symm.trans hdeclare)
      exact hedits
    · rw [herror] at hdeclare
      cases hdeclare
  assign name value position := by
    refine .updateArena fun hregion hassign => ?_
    obtain ⟨assigned, hok, hedits⟩ | ⟨cause, herror⟩ := hregion.assign_cases name position value
    · obtain rfl := Except.ok.inj (hok.symm.trans hassign)
      exact hedits
    · rw [herror] at hassign
      cases hassign
  emit text := .of_eq fun m a m' h => by cases h; exact ⟨rfl, rfl, rfl⟩
  giveBack := .giveBack
  isReturning := .of_eq fun m a m' h => by cases h; exact ⟨rfl, rfl, rfl⟩
  takeReturned := by
    rintro m a m' _ _ ⟨⟩
    exact ⟨(within base).step_of_eq rfl rfl, .inr nofun⟩
  nested := .withScope

/-- A call that ends has taken what was on its way. -/
theorem invoke_pending {setting : Setting} {bound : Nat} {function : Function} {values : List Value}
    {position : Position} {m m' : Machine} {v : Value}
    (h : invoke setting bound function values position m = (.value v, m')) : m'.pending = none := by
  obtain ⟨_, m₁, m₂, -, -, -, hfinish, rfl⟩ := invoke_eq_value h
  rw [finishCall_eq] at hfinish
  split at hfinish
  · cases hfinish
    rfl
  · split at hfinish <;> cases hfinish
    assumption

/-- The evaluation of every tree repays what a call owes. -/
theorem linked_repayment (setting : Setting) (bound base : Nat) (type : ValueType) :
    (repayment base type).Links setting setting (invoke setting bound) (invoke setting bound) bound
      bound := by
  have hrepeats : (repayment base type).Repeats bound bound :=
    (repayment base type).repeats_same (fun _ _ _ _ _ h => by cases h) bound
  refine ⟨rfl, rfl, fun function _ values position m v m' _ _ h => ?_, hrepeats⟩
  have hsupports : Supports (fun _ => True) setting (invoke setting bound) :=
    invoke_follows (fun _ => trivial) (fun _ => trivial) (fun _ _ _ _ _ _ => trivial) bound
  obtain ⟨⟨harena, hscope⟩, -⟩ :=
    hsupports.calls function values position (fun _ _ => True) m trivial
  rw [h] at harena hscope
  refine ⟨(within base).step_of_eq harena hscope, .inr ?_⟩
  rw [invoke_pending h]
  exact nofun

/-- **A call ends with a value of the type that its function returns.** -/
theorem invoke_type {setting : Setting} {bound : Nat} {function : Function} {values : List Value}
    {position : Position} {m m' : Machine} {v : Value} (hm : m.pending = none)
    (h : invoke setting bound function values position m = (.value v, m')) :
    v.type = function.returnType := by
  obtain ⟨bound, m₁, m₂, rfl, -, henter, hfinish, -⟩ := invoke_eq_value h
  obtain ⟨-, hpending⟩ := (linked_repayment setting bound m.arena.size function.returnType).enter
    function values position ⟨m.arena.size, rfl, m.arena.region_of_call m.scope function.returnType⟩
    (.of_call m.arena m.scope function.returnType) henter
  have hreturned : ∀ w, m₁.pending = some w → w.type = function.returnType := by
    rcases hpending with hsame | htype
    · intro w hw
      cases (hw.symm.trans hsame).trans hm
    · exact htype
  rw [finishCall_eq] at hfinish
  split at hfinish
  · next w hw =>
    cases hfinish
    exact hreturned v hw
  · split at hfinish
    · next hvoid =>
      cases hfinish
      exact hvoid.symm
    · cases hfinish

/-! ## Variables -/

/-- A computation that keeps variables well typed, however it ends. -/
def Eval.KeepsTypes {α : Type} (x : Eval α) : Prop :=
  ∀ m : Machine, m.arena.WellTyped → (x m).2.arena.WellTyped

namespace Eval.KeepsTypes

variable {α β : Type} {x : Eval α}

/-- What leaves the arena as it is keeps the types in it. -/
theorem of_eq (h : ∀ m, (x m).2.arena = m.arena) : x.KeepsTypes := by
  intro m hm
  rwa [h m]

theorem ofExcept (result : Except Fault α) : (Eval.ofExcept result).KeepsTypes :=
  of_eq fun m => by cases result <;> rfl

/-- Types that are kept by both parts of a sequence are kept by it. -/
theorem bind {f : α → Eval β} (hx : x.KeepsTypes) (hf : ∀ a, (f a).KeepsTypes) :
    (x >>= f).KeepsTypes := by
  intro m hm
  have hafter := hx m hm
  rcases hxm : x m with ⟨a | fault | _, m'⟩ <;> rw [hxm] at hafter
  · rw [Eval.bind_of_value hxm]
    exact hf a m' hafter
  · rwa [Eval.bind_of_fault hxm]
  · rwa [Eval.bind_of_exhausted hxm]

/-- A change of the arena keeps types, if it keeps them in every arena. -/
theorem updateArena {f : Arena → Option Nat → Except Fault Arena}
    (hf : ∀ {arena scope arena'}, arena.WellTyped → f arena scope = .ok arena' →
      arena'.WellTyped) : (Eval.updateArena f).KeepsTypes := by
  intro m hm
  rcases hchanged : f m.arena m.scope with fault | arena
  · simp only [Eval.updateArena, hchanged]
    exact hm
  · simp only [Eval.updateArena, hchanged]
    exact hf hm hchanged

/-- A scope starts without variables, and closing it takes none but its own. -/
theorem withScope (hx : x.KeepsTypes) (returnType : Option ValueType) :
    (Eval.withScope returnType x).KeepsTypes := by
  intro m hm
  have hafter := hx (m.opened returnType) (hm.openScope m.scope returnType)
  rw [Machine.opened] at hafter
  simp only [Eval.withScope]
  split
  · next arena hclose => exact hafter.close hclose
  · exact hafter

theorem whileActive (hx : x.KeepsTypes) (name : String) : (Eval.whileActive name x).KeepsTypes :=
  fun m hm => hx { m with calls := m.calls.push name } hm

end Eval.KeepsTypes

/-- Keeping types, as a relation that looks at the first computation only. -/
def typing : Congruence where
  rel x _ := x.KeepsTypes
  pure a := .ofExcept (.ok a)
  fail fault := .ofExcept (.error fault)
  bind := .bind
  readVariable name position m hm := Eval.KeepsTypes.ofExcept _ m hm
  declare _ _ _ _ := .updateArena fun h hdeclare => h.declare hdeclare
  assign _ _ _ := .updateArena fun h hassign => h.assign hassign
  emit _ := .of_eq fun _ => rfl
  giveBack value position := .of_eq fun m => by
    rw [Eval.giveBack_eq]
    split
    · rfl
    · split <;> rfl
  isReturning := .of_eq fun _ => rfl
  takeReturned := .of_eq fun _ => rfl
  nested h := h.withScope none

/-- Loops keep types, whatever their bound. -/
theorem typing_repeats (bound : Nat) : typing.Repeats bound bound :=
  typing.repeats_same (.of_eq fun _ => rfl) bound

/-- **Calls keep variables well typed**, those of their callers and their own. -/
theorem invoke_keepsTypes (setting : Setting) (bound : Nat) (function : Function)
    (arguments : List Value) (position : Position) :
    (invoke setting bound function arguments position).KeepsTypes := by
  induction bound generalizing function arguments position with
  | zero => exact .of_eq fun _ => rfl
  | succ bound ih =>
    intro m hm
    rw [invoke_succ]
    by_cases hdepth : m.calls.depth function.name ≥ setting.maxDepth
    · rw [if_pos hdepth]
      exact hm
    · rw [if_neg hdepth]
      have hlinks : typing.Links setting setting (invoke setting bound) (invoke setting bound)
          bound bound := ⟨rfl, rfl, fun function _ => ih function, typing_repeats bound⟩
      have henter : (enter setting (invoke setting bound) bound function arguments
          position).KeepsTypes := hlinks.enter function arguments position
      have hperform := (henter.withScope (some function.returnType)).bind fun _ =>
        typing.finishCall function
      exact hperform.whileActive function.name m hm

/-- The evaluation of every tree keeps variables well typed. -/
theorem linked_typing (setting : Setting) (bound : Nat) :
    typing.Links setting setting (invoke setting bound) (invoke setting bound) bound bound :=
  ⟨rfl, rfl, fun function _ => invoke_keepsTypes setting bound function, typing_repeats bound⟩

/-! ## Moments -/

/-- A computation that ends leaves no value on its way, if none was. -/
def Eval.Clears {α : Type} (x : Eval α) : Prop :=
  ∀ ⦃m a m'⦄, m.pending = none → x m = (.value a, m') → m'.pending = none

namespace Eval.Clears

variable {α β : Type} {x : Eval α}

/-- What follows the rules of structured programs leaves no value behind, since these have no
flag. -/
theorem of_obeys {R : Store → Except Fault α → Store → Prop} (hx : x.Obeys R) : x.Clears := by
  rintro ⟨arena, scope, calls, pending, output⟩ a m' rfl h
  obtain ⟨r, σ', -, heq⟩ := hx ⟨arena, scope, calls, output⟩ (by simp [Store.machine, h])
  rw [Store.machine, h] at heq
  rw [(Prod.mk.inj heq).2]
  rfl

theorem ofExcept (result : Except Fault α) : (Eval.ofExcept result).Clears := by
  intro m a m' hm h
  rw [Eval.ofExcept_apply] at h
  rwa [← (Prod.mk.inj h).2]

/-- A sequence leaves no value behind if neither part does. -/
theorem bind {f : α → Eval β} (hx : x.Clears) (hf : ∀ a, (f a).Clears) : (x >>= f).Clears := by
  intro m b m' hm h
  obtain ⟨a, m₁, hxm, hfm⟩ := Eval.value_of_bind h
  exact hf a (hx hm hxm) hfm

theorem updateArena (f : Arena → Option Nat → Except Fault Arena) :
    (Eval.updateArena f).Clears := by
  intro m a m' hm h
  simp only [Eval.updateArena] at h
  split at h <;> cases h
  exact hm

end Eval.Clears

section
variable (setting : Setting) (bound : Nat)

/-- Expressions leave no value behind: calls take what they return. -/
theorem evaluate_clears (e : Expression) : (evaluate setting (invoke setting bound) e).Clears :=
  .of_obeys (evaluate_sound (invoke_sound setting bound) e)

theorem evaluateAll_clears (es : List Expression) :
    (evaluateAll setting (invoke setting bound) es).Clears :=
  .of_obeys (evaluateAll_sound (invoke_sound setting bound) es)

theorem condition_clears (construct : String) (e : Expression) :
    (condition setting (invoke setting bound) construct e).Clears := by
  rw [condition_eq]
  exact (evaluate_clears setting bound e).bind fun _ => .ofExcept _

theorem declareVariable_clears (d : Declaration) :
    (declareVariable setting (invoke setting bound) d).Clears :=
  (evaluate_clears setting bound d.initializer).bind fun _ => .updateArena _

/-- Declarations leave no value behind, by induction on them. -/
theorem declareVariables_clears (ds : List Declaration) :
    (declareVariables setting (invoke setting bound) ds).Clears := by
  induction ds with
  | nil => exact .ofExcept (.ok ())
  | cons d ds ih => exact (declareVariable_clears setting bound d).bind fun _ => ih

theorem choiceSubject_clears (guards : List Declaration) (subject : Option Expression) :
    (choiceSubject setting (invoke setting bound) guards subject).Clears := by
  rw [choiceSubject_eq]
  split
  · exact (evaluate_clears setting bound _).bind fun a => .ofExcept (.ok (some a))
  · exact .ofExcept (.ok none)

theorem testSucceeds_clears (subject : Option Value) (position : Position)
    (relation : Option Relation) (e : Expression) :
    (testSucceeds setting (invoke setting bound) subject position relation e).Clears := by
  by_cases hsubject : relation.isSome → subject.isSome
  · rw [testSucceeds_eq _ _ hsubject]
    exact (evaluate_clears setting bound e).bind fun _ => .ofExcept _
  · obtain ⟨op, rfl, rfl⟩ := exists_of_unmatched hsubject
    exact .ofExcept (.error _)

/-- If no case applies, then none of them has returned. -/
theorem executeFirstMatch_clears {subject : Option Value} {arms : List Case} {m m' : Machine}
    (hm : m.pending = none)
    (h : executeFirstMatch setting (invoke setting bound) bound subject arms m =
      (.value false, m')) : m'.pending = none := by
  induction arms generalizing m with
  | nil =>
    rw [executeFirstMatch] at h
    cases h
    exact hm
  | cons arm arms ih =>
    cases arm with
    | fallback position output =>
      rw [executeFirstMatch] at h
      exact ih hm h
    | test position relation e output =>
      rw [executeFirstMatch] at h
      obtain ⟨succeeds, m₁, htest, h⟩ := Eval.value_of_bind h
      have hm₁ := testSucceeds_clears setting bound _ _ _ _ hm htest
      cases succeeds with
      | true =>
        obtain ⟨_, _, -, h⟩ := Eval.value_of_bind h
        cases h
      | false => exact ih hm₁ h

end

/-- Parameters leave no value behind. -/
theorem bindParameters_clears (name : String) (position : Position) (index : Nat)
    (parameters : List Parameter) (values : List Value) :
    (bindParameters name position index parameters values).Clears := by
  induction parameters generalizing index values with
  | nil => exact .ofExcept (.ok ())
  | cons parameter parameters ih =>
    cases values with
    | nil => exact .ofExcept (.ok ())
    | cons value values =>
      refine (Eval.Clears.ofExcept _).bind fun _ => ?_
      exact (Eval.Clears.updateArena _).bind fun _ => ih _ _

/-- A step that leaves no value behind does so for some bound, so for the machine that it yields. -/
theorem Setting.Yields.pending {α : Type} {setting : Setting} {x : Invoke → Nat → Eval α}
    {m m' : Machine} {a : α} (h : setting.Yields x m a m')
    (hx : ∀ bound, (x (invoke setting bound) bound).Clears) (hm : m.pending = none) :
    m'.pending = none := by
  obtain ⟨bound, hbound⟩ := h
  exact hx bound hm hbound

/-- A step that keeps types keeps them in the machine that it yields. -/
theorem Setting.Yields.wellTyped {α : Type} {setting : Setting} {x : Invoke → Nat → Eval α}
    {m m' : Machine} {a : α} (h : setting.Yields x m a m')
    (hx : ∀ bound, (x (invoke setting bound) bound).KeepsTypes) (hm : m.arena.WellTyped) :
    m'.arena.WellTyped := by
  obtain ⟨bound, hbound⟩ := h
  have hafter := hx bound m hm
  rwa [hbound] at hafter

namespace Moment

variable {setting : Setting} {moment moment' : Moment}

/-- **No value is on its way when something begins**, as what follows a `return` is skipped. -/
theorem Enters.pending (h : Enters setting moment moment')
    (hm : moment.machine.pending = none) : moment'.machine.pending = none := by
  cases h with
  | right h _ => exact h.pending (fun bound => evaluate_clears setting bound _) hm
  | called _ h => exact h.pending (fun bound => evaluateAll_clears setting bound _) hm
  | otherValues h => exact h.pending (fun bound => evaluate_clears setting bound _) hm
  | otherDeclarations h => exact h.pending (fun bound => declareVariable_clears setting bound _) hm
  | thenBlock h => exact h.pending (fun bound => condition_clears setting bound _ _) hm
  | elseBlock h => exact h.pending (fun bound => condition_clears setting bound _ _) hm
  | whileBody h => exact h.pending (fun bound => condition_clears setting bound _ _) hm
  | again _ _ hpending => exact hpending
  | subject h => exact h.pending (fun bound => declareVariables_clears setting bound _) hm
  | select h h' =>
    have hguards := h.pending (fun bound => declareVariables_clears setting bound _) hm
    exact h'.pending (fun bound => choiceSubject_clears setting bound _ _) hguards
  | fallBack h h' h'' =>
    have hguards := h.pending (fun bound => declareVariables_clears setting bound _) hm
    have hsubject := h'.pending (fun bound => choiceSubject_clears setting bound _ _) hguards
    obtain ⟨bound, hbound⟩ := h''
    exact executeFirstMatch_clears setting bound hsubject hbound
  | selected h => exact h.pending (fun bound => testSucceeds_clears setting bound _ _ _ _) hm
  | otherCases h => exact h.pending (fun bound => testSucceeds_clears setting bound _ _ _ _) hm
  | otherStatements _ hpending => exact hpending
  | body h => exact bindParameters_clears _ _ _ _ _ hm h
  | _ => exact hm

/-- **Variables are well typed when something begins**, if they were before. -/
theorem Enters.wellTyped (h : Enters setting moment moment')
    (hm : moment.machine.arena.WellTyped) : moment'.machine.arena.WellTyped := by
  have linked := linked_typing setting
  cases h with
  | right h _ => exact h.wellTyped (fun bound => (linked bound).evaluate _) hm
  | called _ h => exact h.wellTyped (fun bound => (linked bound).evaluateAll _) hm
  | otherValues h => exact h.wellTyped (fun bound => (linked bound).evaluate _) hm
  | otherDeclarations h => exact h.wellTyped (fun bound => (linked bound).declareVariable _) hm
  | thenBlock h => exact h.wellTyped (fun bound => (linked bound).condition _ _) hm
  | elseBlock h => exact h.wellTyped (fun bound => (linked bound).condition _ _) hm
  | whileBody h => exact h.wellTyped (fun bound => (linked bound).condition _ _) hm
  | again h h' _ =>
    have htest := h.wellTyped (fun bound => (linked bound).condition _ _) hm
    exact h'.wellTyped (fun bound => (linked bound).executeAll _) htest
  | subject h => exact h.wellTyped (fun bound => (linked bound).declareVariables _) hm
  | select h h' =>
    -- several parts are done in front of this one, and each of them keeps the types
    have hguards := h.wellTyped (fun bound => (linked bound).declareVariables _) hm
    exact h'.wellTyped (fun bound => (linked bound).choiceSubject _ _) hguards
  | fallBack h h' h'' =>
    have hguards := h.wellTyped (fun bound => (linked bound).declareVariables _) hm
    have hsubject := h'.wellTyped (fun bound => (linked bound).choiceSubject _ _) hguards
    exact h''.wellTyped (fun bound => (linked bound).executeFirstMatch _ _) hsubject
  | selected h => exact h.wellTyped (fun bound => (linked bound).testSucceeds _ _ _ _) hm
  | otherCases h => exact h.wellTyped (fun bound => (linked bound).testSucceeds _ _ _ _) hm
  | otherStatements h _ => exact h.wellTyped (fun bound => (linked bound).execute _) hm
  | loop => exact hm.openScope _ _
  | choice _ => exact hm.openScope _ _
  | block => exact hm.openScope _ _
  | entered _ => exact hm.openScope _ _
  | @body function values position m m' h =>
    have hafter := typing.bindParameters function.name position function.parameters 1 values m hm
    rwa [h] at hafter
  | _ => exact hm

end Moment

/-! ## Runs -/

/-- Does what a moment is about, and drops its value. -/
def Evaluation.runTask (setting : Setting) (bound : Nat) (task : Task) : Eval Unit :=
  let invoke := invoke setting bound
  match task with
  | .evaluate e => do let _ ← evaluate setting invoke e
  | .evaluateAll es => do let _ ← evaluateAll setting invoke es
  | .declareAll ds => declareVariables setting invoke ds
  | .execute s => execute setting invoke bound s
  | .executeBlock b => executeBlock setting invoke bound b
  | .executeAll ss => executeAll setting invoke bound ss
  | .iterate test body =>
    iterate (condition setting invoke "while" test) (executeAll setting invoke bound body) bound
  | .choose guards subject arms => choose setting invoke bound guards subject arms
  | .select subject arms => do let _ ← executeFirstMatch setting invoke bound subject arms
  | .fallBack arms => executeFallback setting invoke bound arms
  | .produce output => executeOutput setting invoke bound output
  | .call function arguments position => do let _ ← invoke function arguments position
  | .enter function arguments position =>
    enter setting invoke bound function arguments position

/-- Every task keeps types, one case for each kind of task. -/
theorem runTask_keepsTypes (setting : Setting) (bound : Nat) (task : Task) :
    (runTask setting bound task).KeepsTypes := by
  have linked := linked_typing setting bound
  cases task with
  | evaluate e => exact (linked.evaluate e).bind fun _ => typing.pure ()
  | evaluateAll es => exact (linked.evaluateAll es).bind fun _ => typing.pure ()
  | declareAll ds => exact linked.declareVariables ds
  | execute s => exact linked.execute s
  | executeBlock b => exact linked.executeBlock b
  | executeAll ss => exact linked.executeAll ss
  | iterate test body => exact linked.loops (linked.condition "while" test) (linked.executeAll body)
  | choose guards subject arms =>
    exact linked.choose guards subject (fun value => linked.executeFirstMatch value arms)
      (linked.executeFallback arms)
  | select subject arms =>
    exact (linked.executeFirstMatch subject arms).bind fun _ => typing.pure ()
  | fallBack arms => exact linked.executeFallback arms
  | produce output => exact linked.executeOutput output
  | call function arguments position =>
    exact (invoke_keepsTypes setting bound function arguments position).bind fun _ => typing.pure ()
  | enter function arguments position => exact linked.enter function arguments position

/-- The machines of a run. -/
inductive Setting.Visits (setting : Setting) (entry : String) (arguments : List Value) :
    Machine → Prop
  /-- Something begins, -/
  | begins {moment} : setting.Reaches entry arguments moment →
    Visits setting entry arguments moment.machine
  /-- or it has ended, in one way or another, -/
  | ends {moment} (bound : Nat) : setting.Reaches entry arguments moment →
    Visits setting entry arguments (runTask setting bound moment.task moment.machine).2
  /-- or a call has declared some of its parameters. -/
  | binds {function values position m} (count : Nat) :
    setting.Reaches entry arguments ⟨.enter function values position, m⟩ →
    Visits setting entry arguments
      (bindParameters function.name position 1 (function.parameters.take count) values m).2

section
variable {setting : Setting} {entry : String} {arguments : List Value}

/-- **At no moment that begins is a value on its way.** -/
theorem Setting.Reaches.pending {moment : Moment} (h : setting.Reaches entry arguments moment) :
    moment.machine.pending = none := by
  obtain ⟨function, -, -, hreaches⟩ := h
  induction hreaches with
  | refl => rfl
  | tail _ hpart ih => exact hpart.pending ih

/-- **At every moment, variables have values of their types.** -/
theorem Setting.Reaches.wellTyped {moment : Moment} (h : setting.Reaches entry arguments moment) :
    moment.machine.arena.WellTyped := by
  obtain ⟨function, -, -, hreaches⟩ := h
  induction hreaches with
  | refl => exact .empty
  | tail _ hpart ih => exact hpart.wellTyped ih

/-- The machines before and after a task, and while parameters are bound, keep types alike. -/
theorem Setting.Visits.wellTyped {m : Machine} (h : setting.Visits entry arguments m) :
    m.arena.WellTyped := by
  cases h with
  | begins h => exact h.wellTyped
  | ends bound h => exact runTask_keepsTypes setting bound _ _ h.wellTyped
  | binds count h => exact typing.bindParameters _ _ _ _ _ _ h.wellTyped

end

/-- **Declared types are honoured.** In every run of every program: a call of a function, from any
moment of the run, that ends with a value does so with one of the type that the function returns,
which is the absence of a value exactly if the function returns nothing. And always, every variable
of every open scope holds a value of the type that it was declared with, which is never `void`. -/
theorem types_honoured (setting : Setting) (entry : String) (arguments : List Value) :
    (∀ moment, setting.Reaches entry arguments moment → ∀ function values position bound v m',
      invoke setting bound function values position moment.machine = (.value v, m') →
        v.type = function.returnType ∧ (v = .void ↔ function.returnType = .void)) ∧
    ∀ m, setting.Visits entry arguments m → ∀ scope ∈ m.arena.scopes, ∀ name entry,
      (name, entry) ∈ scope.bindings → entry.value.type = entry.type ∧ entry.type ≠ .void := by
  refine ⟨fun moment h function values position bound v m' hcall => ?_, fun m h scope hscope => ?_⟩
  · have htype := invoke_type h.pending hcall
    refine ⟨htype, ?_⟩
    rw [← htype]
    cases v <;> simp [Value.type]
  · obtain ⟨i, hi⟩ := Array.mem_iff_getElem?.1 hscope
    intro name entry hmem
    have hentry := (h.wellTyped i scope hi).entries _ hmem
    exact ⟨hentry.value_type, hentry.type_ne_void⟩

/-- A function that declares variables of several types, assigns and returns from a loop. -/
def typedSource : String :=
  "pad(s string, n int) string \x7b\n  bool more := n > 0\n  while more \x7b\n" ++
    "    s = s + \"*\"\n    n = n - 1\n    if n == 0 \x7b return s \x7d\n  \x7d\n" ++
    "  return s\n\x7d\n\nmain(n int) string \x7b\n  return pad(\"a\", n)\n\x7d\n"

/-- Its value, and its variables when its body has ended. -/
theorem types_honoured_typedSource :
    ∃ program pad m m', parse {} typedSource = .ok program ∧ program.find? "pad" = some pad ∧
      invoke ⟨program, .standard, 100⟩ 20 pad [.string "a", .int 2] pad.position {} =
        (.value (.string "a**"), m') ∧
      (Value.string "a**").type = pad.returnType ∧
      Setting.Visits ⟨program, .standard, 100⟩ "pad" [.string "a", .int 2] m ∧
      (m.arena.scopes.toList.flatMap fun scope =>
        scope.bindings.map fun binding => (binding.1, binding.2.value, binding.2.type)) =
          [("more", .bool true, .basic .bool), ("n", .int 0, .basic .int),
            ("s", .string "a**", .basic .string)] ∧
      ∀ scope ∈ m.arena.scopes, ∀ name entry, (name, entry) ∈ scope.bindings →
        entry.value.type = entry.type ∧ entry.type ≠ .void := by
  have hcheck : ((parse {} typedSource).toOption.bind fun program =>
      (program.find? "pad").map fun pad =>
        let setting : Setting := ⟨program, .standard, 100⟩
        let opened := Machine.opened { calls := CallStack.empty.push pad.name }
          (some pad.returnType)
        let m := (runTask setting 20 (.enter pad [.string "a", .int 2] pad.position) opened).2
        (pad.parameters.length, (invoke setting 20 pad [.string "a", .int 2] pad.position {}).1,
          m.arena.scopes.toList.flatMap fun scope =>
            scope.bindings.map fun binding => (binding.1, binding.2.value, binding.2.type))) =
      some (2, .value (.string "a**"), [("more", .bool true, .basic .bool),
        ("n", .int 0, .basic .int), ("s", .string "a**", .basic .string)]) := by
    decide +kernel
  obtain ⟨program, hprogram, hcheck⟩ := Option.bind_eq_some_iff.1 hcheck
  obtain ⟨pad, hfound, hcheck⟩ := Option.map_eq_some_iff.1 hcheck
  obtain ⟨hcount, hcheck⟩ := Prod.mk.inj hcheck
  obtain ⟨hvalue, hvariables⟩ := Prod.mk.inj hcheck
  let setting : Setting := ⟨program, .standard, 100⟩
  have hstart : setting.Reaches "pad" [.string "a", .int 2]
      ⟨.call pad [.string "a", .int 2] pad.position, {}⟩ := ⟨pad, hfound, hcount, .refl⟩
  have hallowed : CallStack.empty.depth pad.name < setting.maxDepth := Nat.zero_lt_succ 99
  have henter : setting.Reaches "pad" [.string "a", .int 2]
      ⟨.enter pad [.string "a", .int 2] pad.position,
        Machine.opened { calls := CallStack.empty.push pad.name } (some pad.returnType)⟩ :=
    ⟨pad, hfound, hcount, .single (.entered hallowed)⟩
  obtain ⟨hcall, hvisited⟩ := types_honoured setting "pad" [.string "a", .int 2]
  have hinvoke : invoke setting 20 pad [.string "a", .int 2] pad.position {} =
      (.value (.string "a**"), _) := Prod.ext hvalue rfl
  exact ⟨program, pad, _, _, Except.eq_ok_of_toOption hprogram, hfound, hinvoke,
    (hcall _ hstart _ _ _ _ _ _ hinvoke).1, .ends 20 henter, hvariables,
    hvisited _ (.ends 20 henter)⟩

end FLang
