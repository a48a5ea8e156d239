import FLang.Proofs.Runs.Types

/-!
# Choices

A choice does what its first case says whose test succeeds, and what its fallback case says if there
is none. So it does not matter where the fallback case stands, nor which cases come after the one
that is selected: their values are never evaluated (`choice_selects_first`).

* `choose_congr` — a choice depends on the order of its tests and on its fallback case, not on how
  the two are mixed;
* `Rejects`, `GetsPast` — the tests of some cases fail one after the other, and a choice gets past
  them;
* `GetsPast.choose_selected`, `GetsPast.choose_nothing` — what is done then;
* `above` — a choice declares its variables in its own scope, and its tests leave the scopes around
  it as they are.
-/

namespace FLang

open Eval Evaluation

/-! ## Tests and the fallback case -/

/-- Whether a case has a test. -/
def Case.isTest : Case → Bool
  | .test .. => true
  | .fallback .. => false

@[simp] theorem fallbackPositions_append (arms arms' : List Case) :
    fallbackPositions (arms ++ arms') = fallbackPositions arms ++ fallbackPositions arms' :=
  List.filterMap_append

/-- Without a fallback case, all cases have tests, -/
theorem filter_isTest_of_fallbackPositions {arms : List Case} (h : fallbackPositions arms = []) :
    arms.filter Case.isTest = arms := by
  rw [List.filter_eq_self]
  intro arm harm
  cases arm with
  | test => rfl
  | fallback position output => cases List.filterMap_eq_nil_iff.1 h _ harm

/-- and what follows them decides what is done when no test succeeds. -/
theorem fallbackOutput_append {arms : List Case} (h : fallbackPositions arms = [])
    (arms' : List Case) : fallbackOutput (arms ++ arms') = fallbackOutput arms' := by
  induction arms with
  | nil => rfl
  | cons arm arms ih =>
    cases arm with
    | test => exact ih h
    | fallback => cases h

section
variable (setting : Setting) (invoke : Invoke) (bound : Nat)

/-- Looking for the first test that succeeds passes over the fallback case. -/
theorem select_filter (all : List Case) (subject : Option Value) (arms : List Case) :
    select setting invoke bound all subject (arms.filter Case.isTest) =
      select setting invoke bound all subject arms := by
  induction arms with
  | nil => rfl
  | cons arm arms ih =>
    cases arm with
    | test position relation e output =>
      rw [List.filter_cons_of_pos rfl, select_test, select_test, ih]
    | fallback position output =>
      rw [List.filter_cons_of_neg Bool.false_ne_true, select_fallback, ih]

/-- **A choice depends on its tests and on its fallback case**, not on how they are mixed. -/
theorem choose_congr (guards : List Declaration) (subject : Option Expression)
    {arms arms' : List Case} (htests : arms.filter Case.isTest = arms'.filter Case.isTest)
    (hfallback : fallbackOutput arms = fallbackOutput arms') :
    choose setting invoke bound guards subject arms =
      choose setting invoke bound guards subject arms' := by
  have hselect : ∀ value, select setting invoke bound arms value arms =
      select setting invoke bound arms' value arms' := by
    intro value
    rw [← select_filter _ _ _ arms, ← select_filter _ _ _ arms', htests]
    simp only [select, executeFallback_eq, hfallback]
  simp only [choose, hselect]

/-- With one default at most, a choice is made in a scope of its own. -/
theorem execute_choice_of_le {arms : List Case} (h : (fallbackPositions arms).length ≤ 1)
    (position : Position) (guards : List Declaration) (subject : Option Expression) :
    execute setting invoke bound (.choice position guards subject arms) =
      withScope none (choose setting invoke bound guards subject arms) := by
  rcases execute_choice setting invoke bound position guards subject arms with
    ⟨first, second, rest, htwo, -⟩ | ⟨-, hchoose⟩
  · rw [htwo] at h
    cases Nat.le_of_succ_le_succ h
  · exact hchoose

end

/-- The only fallback case of a choice, if it has one, stands in another place. -/
def FallbackMoved (arms arms' : List Case) : Prop :=
  ∃ before after before' after' position output,
    arms = before ++ .fallback position output :: after ∧
    arms' = before' ++ .fallback position output :: after' ∧ before' ++ after' = before ++ after

/-- What stands around the only fallback case are tests. -/
theorem tests_around {before after : List Case} {position : Position} {output : CaseOutput}
    (h : (fallbackPositions (before ++ .fallback position output :: after)).length ≤ 1) :
    fallbackPositions (before ++ after) = [] := by
  have hcons : fallbackPositions (.fallback position output :: after) =
      position :: fallbackPositions after := rfl
  rw [fallbackPositions_append, hcons, List.length_append, List.length_cons] at h
  rw [← List.length_eq_zero_iff, fallbackPositions_append, List.length_append]
  omega

/-- Wherever the default stands, the tests are the other cases in their order. -/
theorem tests_around_filter {before after : List Case}
    (h : fallbackPositions (before ++ after) = []) (position : Position) (output : CaseOutput) :
    (before ++ .fallback position output :: after).filter Case.isTest = before ++ after ∧
      fallbackOutput (before ++ .fallback position output :: after) = some output := by
  constructor
  · rw [List.filter_append, List.filter_cons_of_neg Bool.false_ne_true, ← List.filter_append,
      filter_isTest_of_fallbackPositions h]
  · rw [fallbackPositions_append, List.append_eq_nil_iff] at h
    rw [fallbackOutput_append h.1, fallbackOutput]

/-- A fallback case that is moved leaves the tests and what is done without them as they are. -/
theorem FallbackMoved.same {arms arms' : List Case} (h : FallbackMoved arms arms')
    (hone : (fallbackPositions arms).length ≤ 1) :
    (fallbackPositions arms').length ≤ 1 ∧
      arms.filter Case.isTest = arms'.filter Case.isTest ∧
      fallbackOutput arms = fallbackOutput arms' := by
  obtain ⟨before, after, before', after', position, output, rfl, rfl, heq⟩ := h
  have hnone := tests_around hone
  have hnone' : fallbackPositions (before' ++ after') = [] := heq ▸ hnone
  obtain ⟨htests, houtput⟩ := tests_around_filter hnone position output
  obtain ⟨htests', houtput'⟩ := tests_around_filter hnone' position output
  refine ⟨?_, by rw [htests, htests', heq], houtput.trans houtput'.symm⟩
  have hcons : fallbackPositions (.fallback position output :: after') =
      position :: fallbackPositions after' := rfl
  rw [fallbackPositions_append, List.append_eq_nil_iff] at hnone'
  rw [fallbackPositions_append, hcons, hnone'.1, hnone'.2]
  exact Nat.le_refl 1

/-! ## Getting past tests -/

/-- The tests of some cases fail, one after the other. -/
inductive Rejects (setting : Setting) (invoke : Invoke) (subject : Option Value) :
    List Case → Machine → Machine → Prop
  | nil {m : Machine} : Rejects setting invoke subject [] m m
  | cons {position : Position} {relation : Option Relation} {e : Expression} {output : CaseOutput}
      {arms : List Case} {m m₁ m' : Machine} :
      testSucceeds setting invoke subject position relation e m = (.value false, m₁) →
      Rejects setting invoke subject arms m₁ m' →
      Rejects setting invoke subject (.test position relation e output :: arms) m m'

/-- In its scope, a choice declares its variables, evaluates what its cases are compared with, and
gets past the tests of some cases. -/
def GetsPast (setting : Setting) (invoke : Invoke) (guards : List Declaration)
    (subject : Option Expression) (arms : List Case) (m : Machine) (value : Option Value)
    (m' : Machine) : Prop :=
  ∃ m₁ m₂, declareVariables setting invoke guards m = (.value (), m₁) ∧
    choiceSubject setting invoke guards subject m₁ = (.value value, m₂) ∧
    Rejects setting invoke value arms m₂ m'

section
variable {setting : Setting} {invoke : Invoke} {bound : Nat} {guards : List Declaration}
  {subject : Option Expression} {value : Option Value} {earlier later arms : List Case}
  {m m' m'' : Machine}

/-- Cases that have been rejected do not matter for the selection. -/
theorem Rejects.select_append (h : Rejects setting invoke value earlier m m') (all : List Case) :
    select setting invoke bound all value (earlier ++ later) m =
      select setting invoke bound all value later m' := by
  induction h with
  | nil => rfl
  | cons htest _ ih =>
    rw [List.cons_append, select_test, Eval.bind_of_value htest]
    exact ih

/-- A choice that gets past some tests goes on with those after them. -/
theorem GetsPast.choose_eq (h : GetsPast setting invoke guards subject earlier m value m')
    (harms : arms.filter Case.isTest = earlier ++ later) :
    choose setting invoke bound guards subject arms m =
      select setting invoke bound arms value later m' := by
  obtain ⟨m₁, m₂, hguards, hsubject, hrejects⟩ := h
  rw [choose, Eval.bind_of_value hguards, Eval.bind_of_value hsubject, ← select_filter, harms,
    hrejects.select_append]

/-- **The first case whose test succeeds is selected**, -/
theorem GetsPast.choose_selected (h : GetsPast setting invoke guards subject earlier m value m')
    {position : Position} {relation : Option Relation} {e : Expression} {output : CaseOutput}
    (harms : arms.filter Case.isTest = earlier ++ .test position relation e output :: later)
    (htest : testSucceeds setting invoke value position relation e m' = (.value true, m'')) :
    choose setting invoke bound guards subject arms m =
      executeOutput setting invoke bound output m'' := by
  rw [h.choose_eq harms, select_test, Eval.bind_of_value htest]
  rfl

/-- and nothing is done if there is none and no fallback case. -/
theorem GetsPast.choose_nothing (h : GetsPast setting invoke guards subject arms m value m')
    (hnone : fallbackPositions arms = []) :
    choose setting invoke bound guards subject arms m = (.value (), m') := by
  have harms : arms.filter Case.isTest = arms ++ [] := by
    rw [filter_isTest_of_fallbackPositions hnone, List.append_nil]
  have houtput : fallbackOutput arms = none := by
    simpa [fallbackOutput] using fallbackOutput_append hnone []
  rw [h.choose_eq harms, select_nil, houtput]
  rfl

end

/-! ## The scopes around a choice -/

/-- The scope of this index is the current one, and the scopes before it do not change. -/
def above (base : Nat) : Discipline where
  inv m := m.scope = some base
  step m m' := m'.scope = m.scope ∧ ∀ i < base, m'.arena.scopes[i]? = m.arena.scopes[i]?
  step_of_eq harena hscope := ⟨hscope, fun _ _ => by rw [harena]⟩
  trans h h' := ⟨h'.1.trans h.1, fun i hi => (h'.2 i hi).trans (h.2 i hi)⟩
  keeps hm h := h.1.trans hm

section
variable (setting : Setting) (bound : Nat) {base : Nat}

/-- Expressions leave the scopes outside of the current one. -/
theorem evaluate_above (e : Expression) :
    (above base).Follows (fun _ => True) (fun _ => True)
      (evaluate setting (invoke setting bound) e) := by
  have hsupports : Supports (fun _ => True) setting (invoke setting bound) :=
    invoke_follows (fun _ => trivial) (fun _ => trivial) (fun _ _ _ _ _ _ => trivial) bound
  refine (evaluate_follows hsupports e).weaken (fun _ _ _ _ _ _ => trivial) ?_ fun _ => id
  rintro m m' - ⟨harena, hscope⟩
  exact (above base).step_of_eq harena hscope

theorem declare_above (name : String) (value : Value) (type : ValueType) (position : Position) :
    (above base).Follows (fun _ => True) (fun _ => True) (declare name value type position) := by
  intro m hm
  rcases hdeclare : m.arena.declare m.scope name value type position with fault | arena
  · simp only [declare, updateArena, hdeclare]
    exact ⟨(above base).step_of_eq rfl rfl, trivial⟩
  · obtain ⟨index, scope, hindex, -, -, -, rfl⟩ := Arena.declare_eq_ok hdeclare
    obtain rfl : index = base := Option.some.inj (hindex.symm.trans hm)
    simp only [declare, updateArena, hdeclare]
    refine ⟨⟨rfl, fun i hi => ?_⟩, trivial⟩
    rw [Array.getElem?_modify, if_neg (Nat.ne_of_gt hi)]

theorem declareVariables_above (ds : List Declaration) :
    (above base).Follows (fun _ => True) (fun _ => True)
      (declareVariables setting (invoke setting bound) ds) := by
  induction ds with
  | nil => exact .pure trivial
  | cons d ds ih =>
    have hfirst : (above base).Follows (fun _ => True) (fun _ => True)
        (declareVariable setting (invoke setting bound) d) :=
      (evaluate_above setting bound d.initializer).bind fun value _ =>
        declare_above d.name value d.type d.position
    exact hfirst.bind fun _ _ => ih

/-- Looking for the subject leaves them, too. -/
theorem choiceSubject_above (guards : List Declaration) (subject : Option Expression) :
    (above base).Follows (fun _ => True) (fun _ => True)
      (choiceSubject setting (invoke setting bound) guards subject) := by
  rw [choiceSubject_eq]
  split
  · exact (evaluate_above setting bound _).map fun _ => id
  · exact .pure trivial

theorem testSucceeds_above (subject : Option Value) (position : Position)
    (relation : Option Relation) (e : Expression) :
    (above base).Follows (fun _ => True) (fun _ => True)
      (testSucceeds setting (invoke setting bound) subject position relation e) := by
  by_cases hsubject : relation.isSome → subject.isSome
  · rw [testSucceeds_eq _ _ hsubject]
    exact (evaluate_above setting bound e).bind fun _ _ =>
      .ofExcept (fun _ _ => trivial) fun _ _ => trivial
  · obtain ⟨op, rfl, rfl⟩ := exists_of_unmatched hsubject
    exact .fail trivial

/-- What getting past some tests leaves as it was. -/
structure Machine.Spares (m m' : Machine) (base : Nat) : Prop where
  level : m.Level m'
  outer : ∀ i < base, m'.arena.scopes[i]? = m.arena.scopes[i]?
  pending : m.pending = none → m'.pending = none

theorem Machine.Spares.trans {m m' m'' : Machine} (h : m.Spares m' base) (h' : m'.Spares m'' base) :
    m.Spares m'' base :=
  ⟨h.level.trans h'.level, fun i hi => (h'.outer i hi).trans (h.outer i hi),
    h'.pending ∘ h.pending⟩

/-- A balanced computation that leaves the outer scopes and no value on its way spares them. -/
theorem Machine.Spares.of_value {α : Type} {x : Eval α} (hbalanced : x.Balanced)
    (habove : (above base).Follows (fun _ => True) (fun _ => True) x) (hclears : x.Clears)
    {m m' : Machine} {a : α} (hm : m.scope = some base) (h : x m = (.value a, m')) :
    m.Spares m' base := by
  have hlevel := hbalanced m
  have houter := (habove m hm).1.2
  rw [h] at hlevel houter
  exact ⟨hlevel, houter, fun hpending => hclears hpending h⟩

/-- Tests that fail spare what is outside of the choice. -/
theorem Rejects.spares {subject : Option Value} {arms : List Case} {m m' : Machine}
    (h : Rejects setting (invoke setting bound) subject arms m m') (hm : m.scope = some base) :
    m.Spares m' base := by
  induction h with
  | nil => exact ⟨.refl _, fun _ _ => rfl, id⟩
  | cons htest _ ih =>
    have hspares := Machine.Spares.of_value ((linked_balance setting bound).testSucceeds _ _ _ _)
      (testSucceeds_above setting bound _ _ _ _) (testSucceeds_clears setting bound _ _ _ _) hm
      htest
    exact hspares.trans (ih (hspares.level.scope.trans hm))

theorem GetsPast.spares {guards : List Declaration} {subject : Option Expression} {arms : List Case}
    {value : Option Value} {m m' : Machine}
    (h : GetsPast setting (invoke setting bound) guards subject arms m value m')
    (hm : m.scope = some base) : m.Spares m' base := by
  obtain ⟨m₁, m₂, hguards, hsubject, hrejects⟩ := h
  have hlinks := linked_balance setting bound
  have h₁ := Machine.Spares.of_value (hlinks.declareVariables guards)
    (declareVariables_above setting bound guards) (declareVariables_clears setting bound guards) hm
    hguards
  have hm₁ := h₁.level.scope.trans hm
  have h₂ := Machine.Spares.of_value (hlinks.choiceSubject guards subject)
    (choiceSubject_above setting bound guards subject)
    (choiceSubject_clears setting bound guards subject) hm₁ hsubject
  exact (h₁.trans h₂).trans (hrejects.spares setting bound (h₂.level.scope.trans hm₁))

end

/-- If nothing happened around a scope, then closing it gives back what was there before, but for
what was printed and a value on its way. -/
theorem Machine.Spares.closed_eq {m m' : Machine} {returnType : Option ValueType}
    (h : (m.opened returnType).Spares m' m.arena.size) :
    m'.closed m = { m with pending := m'.pending, output := m'.output } := by
  have harena : m'.arena.scopes.take m.arena.size = m.arena.scopes := by
    have hsize := h.level.size
    rw [Machine.size_opened] at hsize
    simp only [Arena.size] at hsize
    refine Array.ext_getElem? fun i => ?_
    rw [Array.take_eq_extract, Array.getElem?_extract]
    by_cases hi : i < m.arena.size
    · have houter := h.outer i hi
      rw [Machine.opened, Arena.openScope, Array.getElem?_push] at houter
      rw [if_pos (by simp only [Arena.size] at *; omega), Nat.zero_add, houter]
      exact if_neg (Nat.ne_of_lt hi)
    · rw [if_neg (by omega), Array.getElem?_eq_none (Nat.not_lt.1 hi)]
  simp only [Machine.closed, harena, show m'.calls = m.calls from h.level.calls]

/-! ## What a choice does -/

section
variable (setting : Setting) (bound : Nat)

theorem choose_balanced (guards : List Declaration) (subject : Option Expression)
    (arms : List Case) :
    (choose setting (invoke setting bound) bound guards subject arms).Balanced :=
  (linked_balance setting bound).choose guards subject
    (fun value => (linked_balance setting bound).executeFirstMatch value arms)
    ((linked_balance setting bound).executeFallback arms)

/-- A choice does in its own scope what is chosen there, and closes the scope. -/
theorem execute_choice_closed {arms : List Case} (hone : (fallbackPositions arms).length ≤ 1)
    (position : Position) (guards : List Declaration) (subject : Option Expression) {m m' : Machine}
    {outcome : Outcome Unit}
    (h : choose setting (invoke setting bound) bound guards subject arms (m.opened none) =
      (outcome, m')) :
    execute setting (invoke setting bound) bound (.choice position guards subject arms) m =
      (outcome, m'.closed m) := by
  rw [execute_choice_of_le _ _ _ hone, (choose_balanced setting bound _ _ _).withScope_eq, h]

/-- **A choice selects its first case whose test succeeds, and nothing else.** Of a choice with at
most one fallback case, in every machine:

* the fallback case may stand anywhere: the choice ends in the same way, with the same machine;
* if the tests of some cases fail one after the other and that of the next case succeeds, then the
  choice does what this case says, in the machine that the test has led to. The cases after it may
  be any others;
* if all tests fail and there is no fallback case, then the choice ends normally. It leaves every
  scope, the current one and the active calls as they were, and no value on its way. What has been
  printed is what its variables and its tests have printed. -/
theorem choice_selects_first {arms : List Case} (hone : (fallbackPositions arms).length ≤ 1)
    (position : Position) (guards : List Declaration) (subject : Option Expression) (m : Machine) :
    (∀ arms', FallbackMoved arms arms' →
      execute setting (invoke setting bound) bound (.choice position guards subject arms') m =
        execute setting (invoke setting bound) bound (.choice position guards subject arms) m) ∧
    (∀ earlier place relation e output later value m' m'',
      arms.filter Case.isTest = earlier ++ .test place relation e output :: later →
      GetsPast setting (invoke setting bound) guards subject earlier (m.opened none) value m' →
      testSucceeds setting (invoke setting bound) value place relation e m' = (.value true, m'') →
      execute setting (invoke setting bound) bound (.choice position guards subject arms) m =
        ((executeOutput setting (invoke setting bound) bound output m'').1,
          (executeOutput setting (invoke setting bound) bound output m'').2.closed m) ∧
      ∀ arms' later', (fallbackPositions arms').length ≤ 1 →
        arms'.filter Case.isTest = earlier ++ .test place relation e output :: later' →
        execute setting (invoke setting bound) bound (.choice position guards subject arms') m =
          execute setting (invoke setting bound) bound (.choice position guards subject arms) m) ∧
    (∀ value m', fallbackPositions arms = [] →
      GetsPast setting (invoke setting bound) guards subject arms (m.opened none) value m' →
      execute setting (invoke setting bound) bound (.choice position guards subject arms) m =
        (.value (), { m with pending := m'.pending, output := m'.output }) ∧
      (m.pending = none → m'.pending = none)) := by
  refine ⟨fun arms' hmoved => ?_, ?_, fun value m' hnone hpast => ?_⟩
  · obtain ⟨hone', htests, hfallback⟩ := hmoved.same hone
    rw [execute_choice_of_le _ _ _ hone, execute_choice_of_le _ _ _ hone',
      choose_congr _ _ _ _ _ htests hfallback]
  · intro earlier place relation e output later value m' m'' harms hpast htest
    -- the result is named by the selected case alone, so that two choices with the same tests up to
    -- it agree
    have hselected : ∀ arms' later', (fallbackPositions arms').length ≤ 1 →
        arms'.filter Case.isTest = earlier ++ .test place relation e output :: later' →
        execute setting (invoke setting bound) bound (.choice position guards subject arms') m =
          ((executeOutput setting (invoke setting bound) bound output m'').1,
            (executeOutput setting (invoke setting bound) bound output m'').2.closed m) :=
      fun arms' later' hone' harms' =>
        execute_choice_closed setting bound hone' position guards subject
          (hpast.choose_selected harms' htest)
    refine ⟨hselected arms later hone harms, fun arms' later' hone' harms' => ?_⟩
    rw [hselected arms later hone harms, hselected arms' later' hone' harms']
  · have hspares := hpast.spares setting bound rfl
    rw [execute_choice_closed setting bound hone position guards subject
      (hpast.choose_nothing hnone), hspares.closed_eq]
    exact ⟨rfl, hspares.pending⟩

end

/-- A setting in which only embedded functions are defined. -/
def bareSetting : Setting := ⟨⟨[]⟩, .standard, 100⟩

/-- The variable of a choice, which its cases are compared with. -/
def sortingGuards : List Declaration :=
  [⟨⟨1, 12⟩, "n", .int, .literal ⟨1, 17⟩ (.int 7)⟩]

/-- What a choice says when no test succeeds. -/
def sortingFallback : Case :=
  .fallback ⟨2, 3⟩ (.expression (.literal ⟨2, 14⟩ (.string "other")))

/-- A test that fails, and one that succeeds and prints. -/
def sortingTests : List Case :=
  [.test ⟨3, 3⟩ (some .less) (.literal ⟨3, 5⟩ (.int 0))
    (.expression (.literal ⟨3, 10⟩ (.string "negative"))),
   .test ⟨4, 3⟩ none (.literal ⟨4, 3⟩ (.int 7))
    (.block (.mk ⟨4, 8⟩ [.call ⟨4, 10⟩ "println" [.variable ⟨4, 18⟩ "n"]]))]

/-- A test that cannot be evaluated. -/
def brokenTest : Case :=
  .test ⟨5, 3⟩ none (.variable ⟨5, 3⟩ "missing") (.expression (.literal ⟨5, 14⟩ (.int 0)))

/-- A machine in a call, before the choice, -/
def unsorted : Machine where
  arena := ⟨#[⟨none, some .void, [("n", ⟨.int 1, .basic .int, ⟨9, 9⟩⟩)]⟩]⟩
  scope := some 0
  calls := ⟨["main"]⟩
  output := "before"

/-- and in the scope of the choice, which has a variable of the same name. -/
def sorting : Machine :=
  { unsorted with
    arena := ⟨unsorted.arena.scopes.push
      ⟨some 0, none, [("n", ⟨.int 7, .basic .int, ⟨1, 12⟩⟩)]⟩⟩
    scope := some 1 }

theorem choice_selects_first_sorting :
    (fallbackPositions (sortingFallback :: sortingTests ++ [brokenTest])).length ≤ 1 ∧
      (execute bareSetting (invoke bareSetting 5) 5
        (.choice ⟨1, 1⟩ sortingGuards none (sortingFallback :: sortingTests ++ [brokenTest]))
        unsorted).2.output = "before7\n" ∧
      execute bareSetting (invoke bareSetting 5) 5
        (.choice ⟨1, 1⟩ sortingGuards none (sortingTests ++ [brokenTest, sortingFallback]))
        unsorted =
      execute bareSetting (invoke bareSetting 5) 5
        (.choice ⟨1, 1⟩ sortingGuards none (sortingFallback :: sortingTests ++ [brokenTest]))
        unsorted ∧
      execute bareSetting (invoke bareSetting 5) 5
        (.choice ⟨1, 1⟩ sortingGuards none sortingTests) unsorted =
      execute bareSetting (invoke bareSetting 5) 5
        (.choice ⟨1, 1⟩ sortingGuards none (sortingFallback :: sortingTests ++ [brokenTest]))
        unsorted ∧
      execute bareSetting (invoke bareSetting 5) 5
        (.choice ⟨1, 1⟩ sortingGuards none (sortingTests.take 1)) unsorted =
          (.value (), unsorted) := by
  have hone : (fallbackPositions (sortingFallback :: sortingTests ++ [brokenTest])).length ≤ 1 :=
    Nat.le_refl 1
  obtain ⟨hmoved, hselected, -⟩ :=
    choice_selects_first bareSetting 5 hone ⟨1, 1⟩ sortingGuards none unsorted
  obtain ⟨-, -, hnothing⟩ := choice_selects_first bareSetting 5
    (show (fallbackPositions (sortingTests.take 1)).length ≤ 1 from Nat.zero_le 1) ⟨1, 1⟩
    sortingGuards none unsorted
  have hpast : GetsPast bareSetting (invoke bareSetting 5) sortingGuards none
      (sortingTests.take 1) (unsorted.opened none) (some (.int 7)) sorting :=
    ⟨sorting, sorting, by decide +kernel, by decide +kernel, .cons (by decide +kernel) .nil⟩
  have htest : testSucceeds bareSetting (invoke bareSetting 5) (some (.int 7)) ⟨4, 3⟩ none
      (.literal ⟨4, 3⟩ (.int 7)) sorting = (.value true, sorting) := by
    decide +kernel
  refine ⟨hone, by decide +kernel, hmoved _ ?_, ?_, ?_⟩
  · exact ⟨[], sortingTests ++ [brokenTest], sortingTests ++ [brokenTest], [], _, _, rfl, rfl, rfl⟩
  · exact (hselected _ _ _ _ _ _ _ _ _ rfl hpast htest).2 sortingTests [] (Nat.zero_le 1) rfl
  · exact (hnothing _ _ rfl hpast).1

end FLang
