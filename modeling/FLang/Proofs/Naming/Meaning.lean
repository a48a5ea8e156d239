import FLang.Proofs.Naming.Occurrences
import FLang.Proofs.Runs.Moments
import FLang.Session

/-!
# What names mean in a run

Names are looked up in the scopes that happen to be open. At every moment of a run these are the
blocks around the place that is executed (`Machine.Within`), with one exception: the scope of a loop
is kept from turn to turn, so up to the first declaration of its body it still has what the turn
before declared.

* `Placed` — a moment of a run is somewhere in the program, and sees what its place says;
* `Enters.placed`, `Reaches.placed` — kept from a moment to its parts, so true in every run;
* `Setting.Finds` — a use of a variable in a run, and the variable that it finds;
* `names_keep_meaning` — two uses at one place find variables of one declaration, unless one of them
  was captured by the body of a loop.
-/

namespace FLang

open Eval Evaluation

/-! ## Frames and the scopes of a machine -/

/-- What a block can show at a place: what it declares before it, or all that the turn before has
left there. -/
def Frame.Shows (frame : Frame) (entries : List Scope.Entry) : Prop :=
  entries = frame.declared ∨ frame.declared = [] ∧ entries = frame.left

/-- The scopes of a machine are those of the blocks around a place. -/
def Machine.Within (m : Machine) (frames : List Frame) : Prop :=
  ∃ entries, List.Forall₂ Frame.Shows frames entries ∧ m.Sees entries

/-- A block that is executed once, or the body of a loop with its own declarations. -/
def Frame.Admits (more : List Scope.Entry) (frames : List Frame) : Prop :=
  ∀ frame ∈ frames.head?, frame.left = [] ∨ more ⊆ frame.left

namespace Machine.Within

variable {m m' : Machine} {frames : List Frame}

theorem keeps {α : Type} {x : Eval α} {a : Outcome α} (h : m.Within frames) (hx : x.Keeps)
    (hxm : x m = (a, m')) : m'.Within frames := by
  obtain ⟨entries, hshows, hsees⟩ := h
  exact ⟨entries, hshows, hx.sees hxm hsees⟩

/-- A block that is entered has declared nothing yet. -/
theorem opened (h : m.Within frames) (left : List Scope.Entry) :
    (m.opened none).Within ({ declared := [], left } :: frames) := by
  obtain ⟨entries, hshows, i, hi, hsees⟩ := h
  refine ⟨[] :: entries, .cons (.inl rfl) hshows, m.arena.size, rfl, ?_⟩
  have hopen := hsees.openScope
  rwa [← hi] at hopen

/-- What is declared is declared before the rest of the block. A loop cannot declare the same again,
so it gets here in its first turn only. -/
theorem declare {more : List Scope.Entry} (h : m.Within frames) (hmore : m.Declares m' more)
    (hadmits : Frame.Admits more frames) : m'.Within (Frame.declareIn more frames) := by
  obtain ⟨entries, hshows, hsees⟩ := h
  cases hshows with
  | nil =>
    obtain ⟨i, -, hsees⟩ := hsees
    cases hsees
  | @cons frame shown frames rest hshow hrest =>
    have hsees' := hmore.sees hsees
    rcases hshow with rfl | ⟨hdeclared, rfl⟩
    · exact ⟨_, .cons (.inl rfl) hrest, hsees'⟩
    · rcases more with _ | ⟨entry, more⟩
      · exact ⟨_, .cons (.inr ⟨hdeclared, rfl⟩) hrest, hsees'⟩
      · rcases hadmits frame rfl with hleft | hsubset
        · rw [hleft, ← hdeclared] at hsees'
          exact ⟨_, .cons (.inl rfl) hrest, hsees'⟩
        · have hmem : entry ∈ frame.left := hsubset (List.mem_cons_self ..)
          have hfresh := hmore.fresh hsees entry (List.mem_cons_self ..)
          exact absurd (List.mem_map_of_mem hmem) hfresh

/-- The next turn of a loop finds what its body has declared. -/
theorem again {left : List Scope.Entry} (h : m.Within ({ declared := [], left } :: frames))
    (hleft : m.Declares m' left) : m'.Within ({ declared := [], left } :: frames) := by
  obtain ⟨entries, hshows, hsees⟩ := h
  cases hshows with
  | @cons _ shown _ rest hshow hrest =>
    have hsees' := hleft.sees hsees
    rcases hshow with rfl | ⟨-, hshown⟩
    · rw [List.append_nil] at hsees'
      exact ⟨_, .cons (.inr ⟨rfl, rfl⟩) hrest, hsees'⟩
    · obtain rfl : shown = left := hshown
      rcases shown with _ | ⟨entry, shown⟩
      · exact ⟨_, .cons (.inl rfl) hrest, hsees'⟩
      · have hmem : entry ∈ entry :: shown := List.mem_cons_self ..
        exact absurd (List.mem_map_of_mem hmem) (hleft.fresh hsees entry hmem)

end Machine.Within

section
variable {α : Type} {setting : Setting} {x : Invoke → Nat → Eval α} {m m' : Machine} {a : α}

theorem Setting.Yields.within (h : setting.Yields x m a m')
    (hx : ∀ bound, (x (invoke setting bound) bound).Keeps) {frames : List Frame}
    (hm : m.Within frames) : m'.Within frames := by
  obtain ⟨bound, hbound⟩ := h
  exact hm.keeps (hx bound) hbound

end

/-! ## Places of moments -/

/-- The occurrences in a task, which stands in some blocks. -/
def Task.occurrences (frames : List Frame) : Task → List Occurrence
  | .evaluate e => e.occurrences frames
  | .evaluateAll es => Expression.occurrencesAll frames es
  | .declareAll ds => Declaration.occurrencesAll frames ds
  | .execute s => s.occurrences frames
  | .executeBlock b => b.occurrences frames
  | .executeAll ss => Statement.occurrencesAll frames ss
  | .iterate test body => test.occurrences frames ++ Statement.occurrencesAll frames body
  | .choose guards subject arms =>
    let guarded := Frame.declareIn (guards.map Declaration.entry).reverse frames
    Declaration.occurrencesAll frames guards ++
      (subject.toList.flatMap fun e => e.occurrences guarded) ++ Case.occurrencesAll guarded arms
  | .select _ arms => Case.occurrencesAll frames arms
  | .fallBack arms => Case.occurrencesAll frames arms
  | .produce output => output.occurrences frames
  | .call function _ _ => function.occurrences
  | .enter function _ _ => function.occurrences

/-- The nearest block is one in which a task can be done. -/
def Task.Fits (frames : List Frame) : Task → Prop
  | .declareAll ds => Frame.Admits (ds.map Declaration.entry) frames
  | .executeAll ss => Frame.Admits (declaredBy ss) frames
  | .iterate _ body => ∃ outer, frames = { declared := [], left := declaredBy body } :: outer
  | .choose guards _ _ => Frame.Admits (guards.map Declaration.entry) frames
  | .call _ _ _ => False
  | .enter _ _ _ => False
  | _ => True

/-- A moment is somewhere in a program, and its machine has the scopes of that place. -/
inductive Placed (program : Program) : Moment → Prop
  | call {function values position m} : function ∈ program.functions →
    values.length = function.parameters.length → Placed program ⟨.call function values position, m⟩
  | enter {function values position m} : function ∈ program.functions →
    values.length = function.parameters.length → m.Within [{ declared := [] }] →
    Placed program ⟨.enter function values position, m⟩
  | inside {task m frames} : m.Within frames → task.occurrences frames ⊆ program.occurrences →
    task.Fits frames → Placed program ⟨task, m⟩

section
variable {more more' : List Scope.Entry} {frames : List Frame}

theorem Frame.Admits.mono (h : Frame.Admits more frames) (hsubset : more' ⊆ more) :
    Frame.Admits more' frames :=
  fun frame hframe => (h frame hframe).imp_right fun hmore _ hmem => hmore (hsubset hmem)

theorem Frame.Admits.declareIn (h : Frame.Admits more frames) (others : List Scope.Entry) :
    Frame.Admits more (Frame.declareIn others frames) := by
  cases frames with
  | nil => exact h
  | cons frame frames =>
    intro frame' hframe'
    obtain rfl := Option.some.inj hframe'
    exact h frame rfl

theorem Frame.admits_once (more declared : List Scope.Entry) (frames : List Frame) :
    Frame.Admits more ({ declared } :: frames) := by
  intro frame hframe
  obtain rfl := Option.some.inj hframe
  exact .inl rfl

theorem Frame.admits_left (left declared : List Scope.Entry) (frames : List Frame) :
    Frame.Admits left ({ declared, left } :: frames) := by
  intro frame hframe
  obtain rfl := Option.some.inj hframe
  exact .inr fun _ hmem => hmem

end

theorem Setting.Yields.length_eq {setting : Setting} {es : List Expression} {m m' : Machine}
    {values : List Value}
    (h : setting.Yields (fun invoke _ => evaluateAll setting invoke es) m values m') :
    values.length = es.length := by
  obtain ⟨bound, h⟩ := h
  have hmeets := (evaluateAll_follows (supports_scopes setting bound) es m
    fun _ _ _ _ => trivial).2
  change evaluateAll setting (invoke setting bound) es m = _ at h
  rwa [h] at hmeets

namespace Moment

variable {setting : Setting} {moment moment' : Moment}

/-- **A part of something that is done is done where it stands in the text.** -/
theorem Enters.placed (h : Enters setting moment moment')
    (hplaced : Placed setting.program moment) : Placed setting.program moment' := by
  cases hplaced with
  | call hmem hlength =>
    cases h with
    | entered _ =>
      refine .enter hmem hlength ⟨[[]], .cons (.inl rfl) .nil, _, rfl, ?_⟩
      exact Sees.of_call _ _ _
  | @enter function _ _ _ hmem hlength hwithin =>
    cases h with
    | body hbind =>
      refine .inside (hwithin.declare (bindParameters_declares hlength hbind)
        (Frame.admits_once _ _ _)) ?_ (Frame.admits_once _ _ _)
      intro o ho
      refine List.mem_flatMap.2 ⟨function, hmem, ?_⟩
      rwa [Frame.declareIn, List.append_nil] at ho
  | @inside _ _ frames hwithin hsubset hfits =>
    cases h with
    -- a part that is done first finds the frames as they are; one that is done later finds what the
    -- parts in front of it have added to them
    | negated => exact .inside hwithin hsubset trivial
    | casted => exact .inside hwithin hsubset trivial
    | left => exact .inside hwithin (List.append_subset.1 hsubset).1 trivial
    | right hleft _ =>
      exact .inside (hleft.within (fun _ => evaluate_keeps _ _ _) hwithin)
        (List.append_subset.1 hsubset).2 trivial
    | arguments _ => exact .inside hwithin hsubset trivial
    | called hcallee hvalues =>
      exact .call (Setting.mem_of_callee hcallee)
        (hvalues.length_eq.trans (Setting.find?_of_callee hcallee).2.symm)
    | firstValue => exact .inside hwithin (List.append_subset.1 hsubset).1 trivial
    | otherValues hfirst =>
      exact .inside (hfirst.within (fun _ => evaluate_keeps _ _ _) hwithin)
        (List.append_subset.1 hsubset).2 trivial
    | initializer => exact .inside hwithin (List.append_subset.1 hsubset).1 trivial
    -- the rest must still be admitted with this name declared, which is why all the names were at
    -- once
    | @otherDeclarations d ds _ _ hfirst =>
      obtain ⟨bound, hfirst⟩ := hfirst
      have hone : Frame.Admits [d.entry] frames := hfits.mono (by simp)
      exact .inside (hwithin.declare (declareVariable_declares hfirst) hone)
        (List.append_subset.1 hsubset).2 ((hfits.mono (by simp)).declareIn _)
    | declaration => exact .inside hwithin hsubset trivial
    | assignment => exact .inside hwithin (List.cons_subset.1 hsubset).2 trivial
    | @ifTest _ _ _ elseBlock =>
      cases elseBlock with
      | none => exact .inside hwithin (List.append_subset.1 hsubset).1 trivial
      | some elseBlock =>
        exact .inside hwithin (List.append_subset.1 (List.append_subset.1 hsubset).1).1 trivial
    | @thenBlock _ _ _ elseBlock _ _ htest =>
      have hwithin := htest.within (fun _ => condition_keeps _ _ _ _) hwithin
      cases elseBlock with
      | none => exact .inside hwithin (List.append_subset.1 hsubset).2 trivial
      | some elseBlock =>
        exact .inside hwithin (List.append_subset.1 (List.append_subset.1 hsubset).1).2 trivial
    | elseBlock htest =>
      exact .inside (htest.within (fun _ => condition_keeps _ _ _ _) hwithin)
        (List.append_subset.1 hsubset).2 trivial
    | loop => exact .inside (hwithin.opened _) hsubset ⟨frames, rfl⟩
    | whileTest => exact .inside hwithin (List.append_subset.1 hsubset).1 trivial
    | whileBody htest =>
      obtain ⟨outer, rfl⟩ := hfits
      exact .inside (htest.within (fun _ => condition_keeps _ _ _ _) hwithin)
        (List.append_subset.1 hsubset).2 (Frame.admits_left _ _ _)
    -- the names of the last round are gone, and the innermost frame is empty again
    | again htest hbody hgoes =>
      obtain ⟨outer, rfl⟩ := hfits
      obtain ⟨bound, hbody⟩ := hbody
      have hwithin := htest.within (fun _ => condition_keeps _ _ _ _) hwithin
      exact .inside (hwithin.again (executeAll_declares hbody hgoes)) hsubset ⟨outer, rfl⟩
    | choice _ =>
      refine .inside (hwithin.opened []) ?_ (Frame.admits_once _ _ _)
      rwa [Task.occurrences, Frame.declareIn, List.append_nil]
    | guards =>
      exact .inside hwithin (List.append_subset.1 (List.append_subset.1 hsubset).1).1 hfits
    | subject hguards =>
      obtain ⟨bound, hguards⟩ := hguards
      refine .inside (hwithin.declare (declareVariables_declares hguards)
        (hfits.mono (by simp))) ?_ trivial
      have hsubject := (List.append_subset.1 (List.append_subset.1 hsubset).1).2
      simpa [Task.occurrences] using hsubject
    | select hguards hsubject =>
      obtain ⟨bound, hguards⟩ := hguards
      have hwithin := hwithin.declare (declareVariables_declares hguards) (hfits.mono (by simp))
      exact .inside (hsubject.within (fun _ => choiceSubject_keeps _ _ _ _) hwithin)
        (List.append_subset.1 hsubset).2 trivial
    | fallBack hguards hsubject hmatch =>
      obtain ⟨bound, hguards⟩ := hguards
      have hwithin := hwithin.declare (declareVariables_declares hguards) (hfits.mono (by simp))
      have hwithin := hsubject.within (fun _ => choiceSubject_keeps _ _ _ _) hwithin
      exact .inside (hmatch.within (fun _ => executeFirstMatch_keeps _ _ _ _) hwithin)
        (List.append_subset.1 hsubset).2 trivial
    | skipped => exact .inside hwithin (List.append_subset.1 hsubset).2 trivial
    | caseTest _ =>
      exact .inside hwithin (List.append_subset.1 (List.append_subset.1 hsubset).1).1 trivial
    | selected htest =>
      exact .inside (htest.within (fun _ => testSucceeds_keeps _ _ _ _ _ _) hwithin)
        (List.append_subset.1 (List.append_subset.1 hsubset).1).2 trivial
    | otherCases htest =>
      exact .inside (htest.within (fun _ => testSucceeds_keeps _ _ _ _ _ _) hwithin)
        (List.append_subset.1 hsubset).2 trivial
    | fallbackOutput => exact .inside hwithin (List.append_subset.1 hsubset).1 trivial
    | notFallback => exact .inside hwithin (List.append_subset.1 hsubset).2 trivial
    | outputBlock => exact .inside hwithin hsubset trivial
    | outputValue => exact .inside hwithin hsubset trivial
    | returned => exact .inside hwithin hsubset trivial
    | callStatement => exact .inside hwithin hsubset trivial
    | block => exact .inside (hwithin.opened []) hsubset (Frame.admits_once _ _ _)
    | firstStatement => exact .inside hwithin (List.append_subset.1 hsubset).1 trivial
    | @otherStatements s ss _ _ hfirst _ =>
      obtain ⟨bound, hfirst⟩ := hfirst
      have hfits : Frame.Admits (declaredBy ss ++ s.entries) frames := declaredBy_cons s ss ▸ hfits
      exact .inside (hwithin.declare (execute_declares hfirst) (hfits.mono (by simp)))
        (List.append_subset.1 hsubset).2 ((hfits.mono (by simp)).declareIn _)
    | entered _ => exact hfits.elim
    | body _ => exact hfits.elim

end Moment

/-! ## Uses of variables -/

/-- A use of a variable at a position in a run, and the variable that it finds: a variable is read,
or it is assigned, once its new value is known. -/
inductive Setting.Finds (setting : Setting) (entry : String) (arguments : List Value)
    (position : Position) : Variable → Prop
  | read {name m v} : setting.Reaches entry arguments ⟨.evaluate (.variable position name), m⟩ →
    m.arena.lookup m.scope name = .ok (some v) → Finds setting entry arguments position v
  | assigned {name e m value m' v} :
    setting.Reaches entry arguments ⟨.execute (.assignment position name e), m⟩ →
    setting.Yields (fun invoke _ => evaluate setting invoke e) m value m' →
    m'.arena.lookup m'.scope name = .ok (some v) → Finds setting entry arguments position v

/-- A declaration in the body of a loop that a use at a position can find in a later turn. -/
def Program.Captures (program : Program) (position declared : Position) : Prop :=
  ∃ o ∈ program.occurrences, o.position = position ∧ o.Captures declared

section
variable {setting : Setting} {entry : String} {arguments : List Value}

theorem Setting.Reaches.placed {moment : Moment} (h : setting.Reaches entry arguments moment) :
    Placed setting.program moment := by
  obtain ⟨function, hfound, hcount, hreaches⟩ := h
  induction hreaches with
  | refl => exact .call (List.mem_of_find?_eq_some hfound) hcount.symm
  | tail _ hpart ih => exact hpart.placed ih

/-- The nearest name among the scopes is the nearest one in the text, or a loop has left it. -/
theorem nearest_of_shows {frames : List Frame} {entries : List (List Scope.Entry)}
    (h : List.Forall₂ Frame.Shows frames entries) {name : String} {found : Scope.Entry}
    (hfound : Sees.nearest entries name = some found) :
    Sees.nearest (frames.map Frame.declared) name = some found ∨
      ∃ frame ∈ frames, frame.declared = [] ∧
        ∃ entry ∈ frame.left, entry.name = name ∧ entry.position = found.position := by
  induction h with
  | nil => cases hfound
  | @cons frame shown frames entries hshow _ ih =>
    rw [Sees.nearest, List.findSome?_cons] at hfound
    rw [List.map_cons, Sees.nearest, List.findSome?_cons]
    rcases hshow with rfl | ⟨hdeclared, rfl⟩
    · split at hfound
      · exact .inl hfound
      · rcases ih hfound with hnearest | ⟨other, hmem, hcaptured⟩
        · exact .inl hnearest
        · exact .inr ⟨other, .tail _ hmem, hcaptured⟩
    · split at hfound
      · next e he =>
        obtain rfl := Option.some.inj hfound
        have hname : e.name = name := by simpa using List.find?_some he
        exact .inr ⟨frame, .head _, hdeclared, e, List.mem_of_find?_eq_some he, hname, rfl⟩
      · rcases ih hfound with hnearest | ⟨other, hmem, hcaptured⟩
        · rw [hdeclared]
          exact .inl hnearest
        · exact .inr ⟨other, .tail _ hmem, hcaptured⟩

/-- A use finds the nearest declaration in the text, or one that a loop has left. -/
theorem Machine.Within.lookup {m : Machine} {frames : List Frame} (h : m.Within frames)
    {position : Position} {name : String} {v : Variable}
    (hfound : m.arena.lookup m.scope name = .ok (some v)) :
    (Occurrence.mk position name frames).meaning = some ⟨name, v.type, v.position⟩ ∨
      (Occurrence.mk position name frames).Captures v.position := by
  obtain ⟨entries, hshows, i, hi, hsees⟩ := h
  obtain ⟨found, hlookup, hnearest⟩ := hsees.lookup name
  rw [hi, hlookup] at hfound
  obtain rfl := Except.ok.inj hfound
  exact nearest_of_shows hshows hnearest.symm

/-- **A use stands somewhere in the text**, and finds what it means there, or is captured. -/
theorem Setting.Finds.occurrence {position : Position} {v : Variable}
    (h : setting.Finds entry arguments position v) :
    ∃ o ∈ setting.program.occurrences, o.position = position ∧
      (o.meaning = some ⟨o.name, v.type, v.position⟩ ∨ o.Captures v.position) := by
  cases h with
  | @read name m _ hreaches hlookup =>
    cases hreaches.placed with
    | @inside _ _ frames hwithin hsubset _ =>
      exact ⟨⟨position, name, frames⟩, hsubset (.head _), rfl, hwithin.lookup hlookup⟩
  | @assigned name e m value m' _ hreaches hvalue hlookup =>
    cases hreaches.placed with
    | @inside _ _ frames hwithin hsubset _ =>
      have hwithin := hvalue.within (fun _ => evaluate_keeps _ _ _) hwithin
      exact ⟨⟨position, name, frames⟩, hsubset (.head _), rfl, hwithin.lookup hlookup⟩

end

/-- What the test of a loop finds in the first two turns, if it is a variable and the loop comes
after two other statements of a function without parameters. -/
def Setting.findsInTest (setting : Setting) (entry : String) (bound : Nat) :
    Option (Position × Variable × Variable) :=
  match setting.program.find? entry with
  | none => none
  | some function =>
    match function.parameters, function.body.statements with
    | [], first :: second :: .loop _ (.variable position x) (.mk _ body) :: _ =>
      let enter := Machine.opened { calls := CallStack.empty.push function.name }
        (some function.returnType)
      let (outcome, before) := executeAll setting (invoke setting bound) bound [first, second] enter
      let m := before.opened none
      let (holds, m') := condition setting (invoke setting bound) "while" (.variable position x) m
      let (turn, m'') := executeAll setting (invoke setting bound) bound body m'
      if 0 < setting.maxDepth ∧ outcome = .value () ∧ before.pending = none ∧
          holds = .value true ∧ turn = .value () ∧ m''.pending = none then
        match m.arena.lookup m.scope x, m''.arena.lookup m''.scope x with
        | .ok (some v), .ok (some v') => some (position, v, v')
        | _, _ => none
      else none
    | _, _ => none

/-- Statements that are executed to their end lead to those after them. -/
theorem Moment.reaches_executeAll {setting : Setting} {bound : Nat} {ss : List Statement}
    {m m' : Machine} (h : executeAll setting (invoke setting bound) bound ss m = (.value (), m'))
    (hm' : m'.pending = none) (rest : List Statement) :
    Moment.Reaches setting ⟨.executeAll (ss ++ rest), m⟩ ⟨.executeAll rest, m'⟩ := by
  induction ss generalizing m with
  | nil =>
    rw [executeAll] at h
    cases h
    exact .refl
  | cons s ss ih =>
    rw [executeAll] at h
    obtain ⟨_, m₁, hfirst, hrest⟩ := Eval.value_of_bind h
    rw [Eval.isReturning_bind] at hrest
    rcases hpending : m₁.pending with _ | value
    · rw [hpending] at hrest
      exact .head (.otherStatements ⟨bound, hfirst⟩ hpending) (ih hrest)
    · rw [hpending] at hrest
      cases hrest
      rw [hpending] at hm'
      cases hm'

theorem Setting.finds_of_findsInTest {setting : Setting} {entry : String} {bound : Nat}
    {position : Position} {v v' : Variable}
    (h : setting.findsInTest entry bound = some (position, v, v')) :
    setting.Finds entry [] position v ∧ setting.Finds entry [] position v' := by
  rw [Setting.findsInTest] at h
  split at h
  · cases h
  · next function hfound =>
    split at h
    · next first second _ q x _ body rest hparameters hstatements =>
      generalize henter : Machine.opened { calls := CallStack.empty.push function.name }
        (some function.returnType) = enter at h
      rcases hbefore : executeAll setting (invoke setting bound) bound [first, second] enter with
        ⟨outcome, before⟩
      rcases htest : condition setting (invoke setting bound) "while" (.variable q x)
        (before.opened none) with ⟨holds, m'⟩
      rcases hturn : executeAll setting (invoke setting bound) bound body m' with ⟨turn, m''⟩
      simp only [hbefore, htest, hturn] at h
      split at h
      · next hrun =>
        obtain ⟨hdepth, rfl, hpending, rfl, rfl, hgoes⟩ := hrun
        split at h
        · next hv hv' =>
          cases h
          -- the computation was cut into the moments of a run: the call, its body, the loop, and
          -- the test in the first round and in the second
          have hcall : Moment.Reaches setting ⟨.call function [] function.position, {}⟩
              ⟨.enter function [] function.position, enter⟩ := henter ▸ .single (.entered hdepth)
          have hbind : bindParameters function.name function.position 1 function.parameters []
              enter = (.value (), enter) := by
            rw [hparameters]
            rfl
          have hbody := hcall.tail (.body hbind)
          rw [hstatements] at hbody
          have hloop := hbody.trans (Moment.reaches_executeAll hbefore hpending _)
          have hfirst := (hloop.tail .firstStatement).tail .loop
          have hsecond := hfirst.tail (.again ⟨bound, htest⟩ ⟨bound, hturn⟩ hgoes)
          have hcount : function.parameters.length = ([] : List Value).length := by
            rw [hparameters]
            rfl
          exact ⟨.read ⟨function, hfound, hcount, hfirst.tail .whileTest⟩ hv,
            .read ⟨function, hfound, hcount, hsecond.tail .whileTest⟩ hv'⟩
        · cases h
      · cases h
    · cases h

/-- The same for the text of a program: the position of the test, and where the two variables that
it finds were declared. -/
theorem finds_of_source {source : String} {position declared declared' : Position}
    (h : ((parse {} source).toOption.bind fun program =>
      (Setting.findsInTest ⟨program, .standard, 100⟩ "main" 20).map fun found =>
        (found.1, found.2.1.position, found.2.2.position)) =
          some (position, declared, declared')) :
    ∃ program v v', parse {} source = .ok program ∧
      Setting.Finds ⟨program, .standard, 100⟩ "main" [] position v ∧
      Setting.Finds ⟨program, .standard, 100⟩ "main" [] position v' ∧
      v.position = declared ∧ v'.position = declared' := by
  obtain ⟨program, hprogram, h⟩ := Option.bind_eq_some_iff.1 h
  obtain ⟨⟨_, v, v'⟩, hfinds, hfound⟩ := Option.map_eq_some_iff.1 h
  cases hfound
  obtain ⟨hv, hv'⟩ := Setting.finds_of_findsInTest hfinds
  exact ⟨program, v, v', Except.eq_ok_of_toOption hprogram, hv, hv', rfl, rfl⟩

/-- **Names keep their meaning.** In every run of a parsed program, two uses of a variable at the
same position that find a variable find one of the same declaration, unless one of them finds a
declaration that stands directly in the body of a loop around it, and the use is in the test of that
loop, or in its body with no such declaration before it. -/
theorem names_keep_meaning {limits : Limits} {source : String} {program : Program}
    (hparse : parse limits source = .ok program) (registry : Registry) (maxDepth : Nat)
    (entry : String) (arguments : List Value) {position : Position} {v v' : Variable}
    (h : Setting.Finds ⟨program, registry, maxDepth⟩ entry arguments position v)
    (h' : Setting.Finds ⟨program, registry, maxDepth⟩ entry arguments position v') :
    v.position = v'.position ∨ program.Captures position v.position ∨
      program.Captures position v'.position := by
  obtain ⟨o, ho, hposition, hmeaning⟩ := h.occurrence
  obtain ⟨o', ho', hposition', hmeaning'⟩ := h'.occurrence
  obtain rfl : o = o' :=
    List.inj_on_of_nodup_map (occurrences_nodup hparse) ho ho' (hposition.trans hposition'.symm)
  rcases hmeaning with hmeaning | hcaptured
  · rcases hmeaning' with hmeaning' | hcaptured
    · obtain heq := Option.some.inj (hmeaning.symm.trans hmeaning')
      exact .inl (congrArg Scope.Entry.position heq)
    · exact .inr (.inr ⟨o, ho, hposition, hcaptured⟩)
  · exact .inr (.inl ⟨o, ho, hposition, hcaptured⟩)

/-- A loop whose body assigns the variable that it tests. -/
def steadySource : String :=
  "main() int \x7b\n  int n := 0\n  bool go := true\n  while go \x7b\n    int step := 2\n" ++
    "    n = n + step\n    if n > 0 \x7b go = false \x7d\n  \x7d\n  return n\n\x7d\n"

/-- A loop whose body declares the name that it tests. -/
def capturingSource : String :=
  "main() int \x7b\n  int n := 0\n  bool go := true\n  while go \x7b\n" ++
    "    if n == 1 \x7b return n \x7d\n    n = n + 1\n    bool go := false\n  \x7d\n" ++
    "  return 100\n\x7d\n"

/-- In both turns, the test of the one finds the variable in front of the loop. -/
theorem names_keep_meaning_steadySource :
    ∃ program v v', parse {} steadySource = .ok program ∧
      Setting.Finds ⟨program, .standard, 100⟩ "main" [] ⟨4, 9⟩ v ∧
      Setting.Finds ⟨program, .standard, 100⟩ "main" [] ⟨4, 9⟩ v' ∧
      v.position = ⟨3, 8⟩ ∧ (v.position = v'.position ∨ program.Captures ⟨4, 9⟩ v.position ∨
        program.Captures ⟨4, 9⟩ v'.position) := by
  obtain ⟨program, v, v', hparse, h, h', hv, -⟩ :=
    @finds_of_source steadySource ⟨4, 9⟩ ⟨3, 8⟩ ⟨3, 8⟩ (by decide +kernel)
  exact ⟨program, v, v', hparse, h, h', hv, names_keep_meaning hparse .standard 100 "main" [] h h'⟩

/-- **The test of a loop can be captured by its body**: in the second turn, the test of the other
one finds the variable that the first turn has declared, so the loop ends. -/
theorem loop_test_captured :
    (∃ program v v', parse {} capturingSource = .ok program ∧
      Setting.Finds ⟨program, .standard, 100⟩ "main" [] ⟨4, 9⟩ v ∧
      Setting.Finds ⟨program, .standard, 100⟩ "main" [] ⟨4, 9⟩ v' ∧ v.position ≠ v'.position) ∧
    (run {} capturingSource .standard 100 "main" [] 20).1 = .value (.int 100) := by
  obtain ⟨program, v, v', hparse, h, h', hv, hv'⟩ :=
    @finds_of_source capturingSource ⟨4, 9⟩ ⟨3, 8⟩ ⟨7, 10⟩ (by decide +kernel)
  refine ⟨⟨program, v, v', hparse, h, h', ?_⟩, by decide +kernel⟩
  rw [hv, hv']
  decide

end FLang
