import FLang.Proofs.Naming.Outlines
import FLang.Proofs.Runs.Balance
import FLang.Proofs.Scopes.Evaluation

/-!
# Which names a run declares

Whatever a program does, the outlines of the open scopes stay as they are, but for names that it
declares in the current one (`Eval.Grows`). What opens a scope of its own leaves the outlines
exactly as they were (`Eval.Grows.withScope`), however it ends. So a statement other than a
declaration leaves them too (`execute_keeps`), and a sequence of statements that is executed to its
end has declared its own declarations and nothing else (`executeAll_declares`).
-/

namespace FLang

open Eval Evaluation

/-- A computation that declares names in the current scope, and otherwise keeps the outlines. -/
def Eval.Grows {α : Type} (x : Eval α) : Prop :=
  ∀ m : Machine, (x m).2.scope = m.scope ∧
    ∃ more, (x m).2.arena.outline = extendAt m.scope more m.arena.outline

/-- A computation that keeps the outlines. -/
def Eval.Keeps {α : Type} (x : Eval α) : Prop :=
  ∀ m : Machine, (x m).2.scope = m.scope ∧ (x m).2.arena.outline = m.arena.outline

section
variable {α β : Type} {x : Eval α}

namespace Eval.Keeps

/-- What does not change the scopes keeps their outlines. -/
theorem of_eq (h : ∀ m, (x m).2.scope = m.scope ∧ (x m).2.arena = m.arena) : x.Keeps :=
  fun m => ⟨(h m).1, congrArg Arena.outline (h m).2⟩

theorem ofExcept (result : Except Fault α) : (Eval.ofExcept result).Keeps :=
  of_eq fun m => by cases result <;> exact ⟨rfl, rfl⟩

/-- Keeping outlines is growing by nothing. -/
theorem grows (h : x.Keeps) : x.Grows := fun m =>
  ⟨(h m).1, [], by rw [extendAt_nil]; exact (h m).2⟩

/-- Steps that keep outlines can be made one after the other. -/
theorem bind {f : α → Eval β} (hx : x.Keeps) (hf : ∀ a, (f a).Keeps) : (x >>= f).Keeps := by
  intro m
  have hafter := hx m
  rcases hxm : x m with ⟨a | fault | _, m'⟩ <;> rw [hxm] at hafter
  · rw [Eval.bind_of_value hxm]
    exact ⟨(hf a m').1.trans hafter.1, (hf a m').2.trans hafter.2⟩
  · rwa [Eval.bind_of_fault hxm]
  · rwa [Eval.bind_of_exhausted hxm]

/-- Giving a value back does not touch scopes. -/
theorem giveBack (value : Value) (position : Position) : (Eval.giveBack value position).Keeps := by
  refine of_eq fun m => ?_
  rw [Eval.giveBack_eq]
  split
  · exact ⟨rfl, rfl⟩
  · split <;> exact ⟨rfl, rfl⟩

/-- An assignment changes a value, which no outline shows. -/
theorem assign (name : String) (value : Value) (position : Position) :
    (Eval.assign name value position).Keeps := by
  intro m
  rcases hassign : m.arena.assign m.scope name value position with fault | arena
  · simp only [Eval.assign, Eval.updateArena, hassign, and_self]
  · simp only [Eval.assign, Eval.updateArena, hassign]
    exact ⟨trivial, Arena.outline_assign hassign⟩

end Eval.Keeps

namespace Eval.Grows

/-- Names that are declared one after the other are declared together. -/
theorem bind {f : α → Eval β} (hx : x.Grows) (hf : ∀ a, (f a).Grows) : (x >>= f).Grows := by
  intro m
  have hafter := hx m
  rcases hxm : x m with ⟨a | fault | _, m'⟩ <;> rw [hxm] at hafter
  · rw [Eval.bind_of_value hxm]
    obtain ⟨hscope, more, houtline⟩ := hafter
    obtain ⟨hscope', more', houtline'⟩ := hf a m'
    refine ⟨hscope'.trans hscope, more' ++ more, ?_⟩
    rw [houtline', hscope, houtline, extendAt_extendAt]
  · rwa [Eval.bind_of_fault hxm]
  · rwa [Eval.bind_of_exhausted hxm]

/-- A declaration that succeeds adds its name to the current scope, and one that is refused adds
nothing. -/
theorem declare (name : String) (value : Value) (type : ValueType) (position : Position) :
    (Eval.declare name value type position).Grows := by
  intro m
  rcases hdeclare : m.arena.declare m.scope name value type position with fault | arena
  · simp only [Eval.declare, Eval.updateArena, hdeclare]
    exact ⟨trivial, [], extendAt_nil.symm⟩
  · simp only [Eval.declare, Eval.updateArena, hdeclare]
    exact ⟨trivial, _, (Arena.outline_declare hdeclare).1⟩

/-- **What opens a scope of its own keeps the outlines.** -/
theorem withScope (hx : x.Grows) (returnType : Option ValueType) :
    (Eval.withScope returnType x).Keeps := by
  intro m
  obtain ⟨-, more, houtline⟩ := hx (m.opened returnType)
  obtain ⟨closed, hclose, hclosed⟩ := Arena.outline_close houtline
  rw [Machine.opened] at hclose
  simp only [Eval.withScope, hclose]
  exact ⟨trivial, hclosed⟩

end Eval.Grows

end

/-- Growing, as a relation that looks at the first computation only. -/
def growth : Congruence where
  rel x _ := x.Grows
  pure a := (Eval.Keeps.ofExcept (.ok a)).grows
  fail fault := (Eval.Keeps.ofExcept (.error fault)).grows
  bind := .bind
  readVariable _ _ m := (Eval.Keeps.ofExcept _).grows m
  declare name value type position := .declare name value type position
  assign name value position := (Eval.Keeps.assign name value position).grows
  emit _ := (Eval.Keeps.of_eq fun _ => ⟨rfl, rfl⟩).grows
  giveBack value position := (Eval.Keeps.giveBack value position).grows
  isReturning := (Eval.Keeps.of_eq fun _ => ⟨rfl, rfl⟩).grows
  takeReturned := (Eval.Keeps.of_eq fun _ => ⟨rfl, rfl⟩).grows
  nested h := (h.withScope none).grows

theorem growth_repeats (bound : Nat) : growth.Repeats bound bound :=
  growth.repeats_same (Eval.Keeps.of_eq fun _ => ⟨rfl, rfl⟩).grows bound

section
variable (setting : Setting) (bound : Nat)

/-- Calls leave the scopes as they are. -/
theorem supports_scopes : Supports (fun _ => True) setting (invoke setting bound) :=
  invoke_follows (fun _ => trivial) (fun _ => trivial) (fun _ _ _ _ _ _ => trivial) bound

/-- What leaves the scopes as they are keeps their outlines. -/
theorem Eval.Keeps.of_follows {α : Type} {x : Eval α} {known : Arena → Option Nat → Prop}
    {ok : Fault → Prop} {post : α → Prop} (h : (still known).Follows ok post x)
    (hknown : ∀ arena scope, known arena scope) : x.Keeps :=
  of_eq fun m => ((h m (hknown _ _)).1).symm

/-- A call leaves the outlines of its caller as they are. -/
theorem invoke_keeps (function : Function) (arguments : List Value) (position : Position) :
    (invoke setting bound function arguments position).Keeps :=
  .of_follows ((supports_scopes setting bound).calls function arguments position fun _ _ => True)
    fun _ _ => trivial

/-- Growth carries over to the evaluation of every tree. -/
theorem linked_growth :
    growth.Links setting setting (invoke setting bound) (invoke setting bound) bound bound :=
  ⟨rfl, rfl, fun function _ arguments position =>
    (invoke_keeps setting bound function arguments position).grows, growth_repeats bound⟩

/-- Expressions declare nothing. -/
theorem evaluate_keeps (e : Expression) : (evaluate setting (invoke setting bound) e).Keeps :=
  .of_follows (evaluate_follows (supports_scopes setting bound) e) fun _ _ _ _ _ _ => trivial

theorem condition_keeps (construct : String) (e : Expression) :
    (condition setting (invoke setting bound) construct e).Keeps := by
  rw [condition_eq]
  exact (evaluate_keeps setting bound e).bind fun _ => .ofExcept _

theorem testSucceeds_keeps (subject : Option Value) (position : Position)
    (relation : Option Relation) (e : Expression) :
    (testSucceeds setting (invoke setting bound) subject position relation e).Keeps := by
  by_cases h : relation.isSome → subject.isSome
  · rw [testSucceeds_eq setting _ h]
    exact (evaluate_keeps setting bound e).bind fun _ => .ofExcept _
  · obtain ⟨op, rfl, rfl⟩ := exists_of_unmatched h
    exact .ofExcept (.error _)

theorem choiceSubject_keeps (guards : List Declaration) (subject : Option Expression) :
    (choiceSubject setting (invoke setting bound) guards subject).Keeps := by
  rw [choiceSubject_eq]
  split
  · exact (evaluate_keeps setting bound _).bind fun _ => .ofExcept (.ok _)
  · exact .ofExcept (.ok none)

/-- What a block declares is closed with it. -/
theorem executeBlock_keeps (b : Block) :
    (executeBlock setting (invoke setting bound) bound b).Keeps := by
  obtain ⟨position, ss⟩ := b
  have hbody : (executeAll setting (invoke setting bound) bound ss).Grows :=
    (linked_growth setting bound).executeAll ss
  rw [executeBlock]
  exact hbody.withScope none

/-- What a case declares is closed with it. -/
theorem executeOutput_keeps (output : CaseOutput) :
    (executeOutput setting (invoke setting bound) bound output).Keeps := by
  cases output with
  | block b =>
    rw [executeOutput]
    exact executeBlock_keeps setting bound b
  | expression e =>
    rw [executeOutput]
    refine (evaluate_keeps setting bound e).bind fun value => ?_
    by_cases hvoid : value = .void
    · rw [if_pos hvoid]
      exact .ofExcept (.ok ())
    · rw [if_neg hvoid]
      exact .giveBack _ _

/-- Tests and what they select declare nothing that stays. -/
theorem executeFirstMatch_keeps (subject : Option Value) (arms : List Case) :
    (executeFirstMatch setting (invoke setting bound) bound subject arms).Keeps := by
  induction arms with
  | nil =>
    rw [executeFirstMatch]
    exact .ofExcept (.ok false)
  | cons arm arms ih =>
    cases arm with
    | fallback position output =>
      rw [executeFirstMatch]
      exact ih
    | test position relation e output =>
      rw [executeFirstMatch]
      refine (testSucceeds_keeps setting bound subject position relation e).bind fun succeeds => ?_
      cases succeeds with
      | true => exact (executeOutput_keeps setting bound output).bind fun _ => .ofExcept (.ok true)
      | false => exact ih

/-- A choice declares its guards in the scope that it opens. -/
theorem choose_grows (guards : List Declaration) (subject : Option Expression) (arms : List Case) :
    (choose setting (invoke setting bound) bound guards subject arms).Grows :=
  have hlinks := linked_growth setting bound
  hlinks.choose guards subject (fun value => hlinks.executeFirstMatch value arms)
    (hlinks.executeFallback arms)

/-- **A statement other than a declaration keeps the outlines**, however it ends. -/
theorem execute_keeps {s : Statement} (hs : ∀ d, s ≠ .declaration d) :
    (execute setting (invoke setting bound) bound s).Keeps := by
  have hif := condition_keeps setting bound "if"
  cases s with
  | declaration d => exact absurd rfl (hs d)
  | assignment position name e =>
    rw [execute]
    exact (evaluate_keeps setting bound e).bind fun value => .assign name value position
  | conditional position test thenBlock elseBlock =>
    cases elseBlock with
    | none =>
      rw [execute]
      refine (hif test).bind fun holds => ?_
      cases holds with
      | true => exact executeBlock_keeps setting bound thenBlock
      | false => exact .ofExcept (.ok ())
    | some elseBlock =>
      rw [execute]
      refine (hif test).bind fun holds => ?_
      cases holds with
      | true => exact executeBlock_keeps setting bound thenBlock
      | false => exact executeBlock_keeps setting bound elseBlock
  | loop position test body =>
    obtain ⟨place, ss⟩ := body
    -- the rounds may declare names, all of them in the scope of the loop, which is closed behind
    -- them
    have hloop : Eval.Grows (iterate (condition setting (invoke setting bound) "while" test)
        (executeAll setting (invoke setting bound) bound ss) bound) :=
      growth_repeats bound ((linked_growth setting bound).condition "while" test)
        ((linked_growth setting bound).executeAll ss)
    rw [execute]
    exact hloop.withScope none
  | choice position guards subject arms =>
    rcases execute_choice setting (invoke setting bound) bound position guards subject arms with
      ⟨first, second, rest, -, heq⟩ | ⟨-, heq⟩
    · rw [heq]
      exact .ofExcept (.error _)
    · rw [heq]
      exact (choose_grows setting bound guards subject arms).withScope none
  | giveBack position value =>
    cases value with
    | none =>
      rw [execute]
      exact .giveBack _ _
    | some e =>
      rw [execute]
      exact (evaluate_keeps setting bound e).bind fun value => .giveBack value position
  | call position name es =>
    rw [execute, ← evaluate]
    exact (evaluate_keeps setting bound _).bind fun _ => .ofExcept (.ok ())

end

/-! ## Names in sight of a machine -/

/-- The names in sight from the current scope. -/
def Machine.Sees (m : Machine) (frames : List (List Scope.Entry)) : Prop :=
  ∃ i, m.scope = some i ∧ FLang.Sees m.arena.outline i frames

/-- The entry of a declaration. -/
def Declaration.entry (d : Declaration) : Scope.Entry :=
  ⟨d.name, d.type, d.position⟩

/-- The entry of a parameter. -/
def Parameter.entry (p : Parameter) : Scope.Entry :=
  ⟨p.name, p.type, p.position⟩

/-- What a statement declares in the scope around it. -/
def Statement.entries : Statement → List Scope.Entry
  | .declaration d => [d.entry]
  | _ => []

/-- What some statements declare in the scope around them, the last one first. -/
def declaredBy (ss : List Statement) : List Scope.Entry :=
  (ss.flatMap Statement.entries).reverse

/-- What statements declare, the latest first. -/
@[simp] theorem declaredBy_cons (s : Statement) (ss : List Statement) :
    declaredBy (s :: ss) = declaredBy ss ++ s.entries := by
  cases s <;> simp [declaredBy, Statement.entries]

/-- Some names are added to the nearest of those in sight, which has none of them. -/
structure Machine.Declares (m m' : Machine) (more : List Scope.Entry) : Prop where
  sees : ∀ {frame frames}, m.Sees (frame :: frames) → m'.Sees ((more ++ frame) :: frames)
  fresh : ∀ {frame frames}, m.Sees (frame :: frames) → ∀ entry ∈ more,
    entry.name ∉ frame.map Scope.Entry.name

section
variable {m m' m'' : Machine}

/-- Declarations add up, the latest in front. -/
theorem Machine.Declares.trans {more more' : List Scope.Entry} (h : m.Declares m' more)
    (h' : m'.Declares m'' more') : m.Declares m'' (more' ++ more) := by
  refine ⟨fun hsees => ?_, fun hsees entry hentry => ?_⟩
  · rw [List.append_assoc]
    exact h'.sees (h.sees hsees)
  · rcases List.mem_append.1 hentry with hentry | hentry
    · have hnot := h'.fresh (h.sees hsees) entry hentry
      rw [List.map_append, List.mem_append] at hnot
      exact fun hmem => hnot (.inr hmem)
    · exact h.fresh hsees entry hentry

/-- The names in sight stay in sight where outlines are kept. -/
theorem Eval.Keeps.sees {α : Type} {x : Eval α} {a : Outcome α} (hx : x.Keeps)
    (h : x m = (a, m')) {frames : List (List Scope.Entry)} (hm : m.Sees frames) :
    m'.Sees frames := by
  obtain ⟨i, hi, hsees⟩ := hm
  obtain ⟨hscope, houtline⟩ := hx m
  rw [h] at hscope houtline
  exact ⟨i, hscope.trans hi, houtline ▸ hsees⟩

/-- Keeping outlines is declaring nothing. -/
theorem Eval.Keeps.declares {α : Type} {x : Eval α} {a : Outcome α} (hx : x.Keeps)
    (h : x m = (a, m')) : m.Declares m' [] :=
  ⟨fun hsees => hx.sees h hsees, fun _ _ hmem => by cases hmem⟩

/-- A declaration that has succeeded has declared its entry. -/
theorem declare_declares {name : String} {value : Value} {type : ValueType} {position : Position}
    (h : Eval.declare name value type position m = (.value (), m')) :
    m.Declares m' [⟨name, type, position⟩] := by
  rcases hdeclare : m.arena.declare m.scope name value type position with fault | arena
  · simp only [Eval.declare, Eval.updateArena, hdeclare] at h
    cases h
  · simp only [Eval.declare, Eval.updateArena, hdeclare] at h
    cases h
    obtain ⟨houtline, j, outline, hj, hopen, hfresh⟩ := Arena.outline_declare hdeclare
    refine ⟨?_, ?_⟩
    · rintro frame frames ⟨i, hi, hsees⟩
      refine ⟨i, hi, ?_⟩
      rw [houtline, hi]
      exact hsees.extend _
    · rintro frame frames ⟨i, hi, hsees⟩ entry hentry
      obtain rfl := List.mem_singleton.1 hentry
      obtain rfl := Option.some.inj (hi.symm.trans hj)
      obtain ⟨outline', outer, hopen', hframes⟩ := hsees.exists_outline
      obtain rfl := Option.some.inj (hopen.symm.trans hopen')
      rw [(List.cons.inj hframes).1]
      exact hfresh

end

section
variable {setting : Setting} {bound : Nat} {m m' : Machine}

theorem declareVariable_declares {d : Declaration}
    (h : declareVariable setting (invoke setting bound) d m = (.value (), m')) :
    m.Declares m' [d.entry] := by
  obtain ⟨value, m₁, hvalue, hdeclare⟩ := Eval.value_of_bind h
  have hfirst := (evaluate_keeps setting bound d.initializer).declares hvalue
  exact hfirst.trans (declare_declares hdeclare)

/-- Guards are declared in their order. -/
theorem declareVariables_declares {ds : List Declaration}
    (h : declareVariables setting (invoke setting bound) ds m = (.value (), m')) :
    m.Declares m' (ds.map Declaration.entry).reverse := by
  induction ds generalizing m with
  | nil => exact (Eval.Keeps.ofExcept (.ok ())).declares h
  | cons d ds ih =>
    obtain ⟨_, m₁, hfirst, hrest⟩ := Eval.value_of_bind h
    rw [List.map_cons, List.reverse_cons]
    exact (declareVariable_declares hfirst).trans (ih hrest)

/-- **A statement that has been executed has declared its own entries and nothing else.** -/
theorem execute_declares {s : Statement}
    (h : execute setting (invoke setting bound) bound s m = (.value (), m')) :
    m.Declares m' s.entries := by
  by_cases hs : ∃ d, s = .declaration d
  · obtain ⟨d, rfl⟩ := hs
    rw [execute] at h
    exact declareVariable_declares h
  · have hnone : s.entries = [] := by
      cases s with
      | declaration d => exact absurd ⟨d, rfl⟩ hs
      | _ => rfl
    rw [hnone]
    exact (execute_keeps setting bound fun d hd => hs ⟨d, hd⟩).declares h

/-- **Statements that are executed to their end have declared their declarations.** -/
theorem executeAll_declares {ss : List Statement}
    (h : executeAll setting (invoke setting bound) bound ss m = (.value (), m'))
    (hm' : m'.pending = none) : m.Declares m' (declaredBy ss) := by
  induction ss generalizing m with
  | nil =>
    rw [executeAll] at h
    exact (Eval.Keeps.ofExcept (.ok ())).declares h
  | cons s ss ih =>
    rw [executeAll] at h
    obtain ⟨_, m₁, hfirst, hrest⟩ := Eval.value_of_bind h
    rw [Eval.isReturning_bind] at hrest
    rw [declaredBy_cons]
    rcases hpending : m₁.pending with _ | value
    · rw [hpending] at hrest
      exact (execute_declares hfirst).trans (ih hrest)
    · rw [hpending] at hrest
      cases hrest
      rw [hpending] at hm'
      cases hm'

/-- Parameters are declared in their order. -/
theorem bindParameters_declares {name : String} {position : Position} {parameters : List Parameter}
    {index : Nat} {values : List Value} (hlength : values.length = parameters.length)
    (h : bindParameters name position index parameters values m = (.value (), m')) :
    m.Declares m' (parameters.map Parameter.entry).reverse := by
  induction parameters generalizing index values m with
  | nil =>
    rw [bindParameters] at h
    · exact (Eval.Keeps.ofExcept (.ok ())).declares h
    · simp
  | cons parameter parameters ih =>
    cases values with
    | nil => cases hlength
    | cons value values =>
      rw [bindParameters] at h
      obtain ⟨_, m₁, hcheck, h⟩ := Eval.value_of_bind h
      obtain ⟨_, m₂, hdeclare, hrest⟩ := Eval.value_of_bind h
      rw [List.map_cons, List.reverse_cons]
      have hfirst := ((Eval.Keeps.ofExcept _).declares hcheck).trans (declare_declares hdeclare)
      exact hfirst.trans (ih (by simpa using hlength) hrest)

end

end FLang
