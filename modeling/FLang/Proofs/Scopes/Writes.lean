import FLang.Proofs.Naming.Growth

/-!
# Where statements write

A statement writes into the scopes that names are looked up in: those from the current scope outward
to the nearest one of a call, its *chain*. All other scopes it leaves as they are, and in the scopes
of the chain it changes values only. The one exception is a declaration that succeeds, which adds
its own name to the current scope (`execute_writes`).

* `Arena.OnChain` — the scopes of a chain;
* `Arena.WritesAlong` — scopes on a chain may change their variables, and nothing else changes. A
  scope that is opened inside the current one lengthens the chain by itself, so what is written
  along the longer chain is written along the shorter one when the scope is closed
  (`WritesAlong.close_openScope`);
* `Eval.StaysOnChain` — a computation writes along the chain of the current scope only, which every
  statement does (`execute_staysOnChain`).

Nothing is assumed of the machine: all of this holds whatever scopes are open.
-/

namespace FLang

open Eval Evaluation

namespace Arena

variable {arena arena' arena'' : Arena} {start : Option Nat} {i : Nat}

/-! ## Chains -/

/-- The scopes from one outward to the nearest one that belongs to a call. -/
inductive OnChain (arena : Arena) : Option Nat → Nat → Prop
  | here {i : Nat} : OnChain arena (some i) i
  | outward {i j : Nat} {scope : Scope} : arena.scopes[i]? = some scope →
    scope.returnType = none → OnChain arena scope.parent j → OnChain arena (some i) j

/-- Chains do not depend on variables. -/
theorem OnChain.of_edits (h : arena'.OnChain start i) (hedits : Edits 0 arena arena') :
    arena.OnChain start i := by
  induction h with
  | here => exact .here
  | outward hscope hnone _ ih =>
    obtain ⟨scope, hscope, hparent, htype⟩ := hedits.shape _ _ hscope
    exact .outward hscope (htype ▸ hnone) (hparent ▸ ih)

/-- What is found by a search is found in a scope of the chain. -/
theorem onChain_of_searchUpTo {name : String} {entry : Variable} {fuel : Nat}
    (h : arena.searchUpTo (fun index scope => (scope.find? name).map fun entry => (index, entry))
      fuel start = .ok (some (i, entry))) : arena.OnChain start i := by
  induction fuel generalizing start with
  | zero => cases start <;> cases h
  | succ fuel ih =>
    cases start with
    | none => cases h
    | some index =>
      obtain ⟨scope, hscope, hfound | ⟨hnone, houtward⟩⟩ := searchUpTo_succ_found h
      · obtain ⟨_, -, heq⟩ := Option.map_eq_some_iff.1 hfound
        cases heq
        exact .here
      · exact .outward hscope hnone (ih houtward)

/-- A scope inside another one has that one's chain and itself. -/
theorem OnChain.of_openScope {start' : Option Nat}
    (h : (arena.openScope start none).OnChain start' i)
    (hstart : start' = some arena.size ∨ ∀ j, arena.OnChain start' j → arena.OnChain start j) :
    i = arena.size ∨ arena.OnChain start i := by
  induction h with
  | @here i =>
    rcases hstart with heq | hinside
    · exact .inl (Option.some.inj heq)
    · exact .inr (hinside i .here)
  | @outward k j scope hscope hnone _ ih =>
    rcases getElem?_openScope hscope with hold | ⟨-, rfl⟩
    · refine ih (.inr fun l hl => ?_)
      rcases hstart with heq | hinside
      · obtain rfl := Option.some.inj heq
        exact absurd (Array.getElem?_eq_some_iff.1 hold).1 (Nat.lt_irrefl _)
      · exact hinside l (.outward hold hnone hl)
    · exact ih (.inr fun _ => id)

/-! ## Changes along a chain -/

/-- Closing a scope leaves the earlier ones. -/
theorem getElem?_close {index : Nat} (h : arena.close index = .ok arena') (hi : i < index) :
    arena'.scopes[i]? = arena.scopes[i]? := by
  rw [close] at h
  split at h
  · next hindex =>
    obtain rfl := Except.ok.inj h
    rw [Array.take_eq_extract, Array.getElem?_extract, if_pos (by simp only [size] at *; omega),
      Nat.zero_add]
  · cases h

/-- Scopes on a chain may change their variables, and nothing else changes. -/
structure WritesAlong (start : Option Nat) (before after : Arena) : Prop
    extends Edits 0 before after where
  outside : ∀ i, ¬ before.OnChain start i → after.scopes[i]? = before.scopes[i]?

namespace WritesAlong

theorem refl (start : Option Nat) (arena : Arena) : WritesAlong start arena arena :=
  ⟨.refl 0 arena, fun _ _ => rfl⟩

/-- Changes in sequence are changes along the same chain, since they keep it. -/
theorem trans (h : WritesAlong start arena arena') (h' : WritesAlong start arena' arena'') :
    WritesAlong start arena arena'' := by
  refine ⟨h.toEdits.trans h'.toEdits, fun i hi => ?_⟩
  have hi' : ¬ arena'.OnChain start i := fun hchain => hi (hchain.of_edits h.toEdits)
  rw [h'.outside i hi', h.outside i hi]

/-- Changing the variables of one scope of the chain. -/
theorem modify {f : Scope → Scope} (hi : arena.OnChain start i)
    (hf : ∀ scope, (f scope).parent = scope.parent ∧ (f scope).returnType = scope.returnType) :
    WritesAlong start arena ⟨arena.scopes.modify i f⟩ := by
  refine ⟨.modify (Nat.zero_le i) hf, fun j hj => ?_⟩
  have hne : i ≠ j := by
    rintro rfl
    exact hj hi
  rw [Array.getElem?_modify, if_neg hne]

/-- An assignment changes a scope that is in sight, -/
theorem assign {name : String} {value : Value} {position : Position}
    (h : arena.assign start name value position = .ok arena') : WritesAlong start arena arena' := by
  obtain ⟨i, entry, hresolve, -, rfl⟩ := assign_eq_ok h
  exact .modify (onChain_of_searchUpTo hresolve) fun _ => ⟨rfl, rfl⟩

/-- and a declaration changes the innermost one. -/
theorem declare {name : String} {value : Value} {type : ValueType} {position : Position}
    (h : arena.declare start name value type position = .ok arena') :
    WritesAlong start arena arena' := by
  obtain ⟨i, scope, rfl, -, -, -, rfl⟩ := declare_eq_ok h
  exact .modify .here fun _ => ⟨rfl, rfl⟩

/-- What was written along the chain of a scope that was opened last is written along the chain of
the scope around it, once the scope is closed. -/
theorem close_openScope (h : WritesAlong (some arena.size) (arena.openScope start none) arena') :
    ∃ closed, arena'.close arena.size = .ok closed ∧ WritesAlong start arena closed := by
  obtain ⟨closed, hclosed, hedits⟩ := h.toEdits.close_openScope
  refine ⟨closed, hclosed, hedits, fun i hi => ?_⟩
  by_cases hlt : i < arena.size
  · have hinner : ¬ (arena.openScope start none).OnChain (some arena.size) i := fun hchain =>
      (hchain.of_openScope (.inl rfl)).elim (Nat.ne_of_lt hlt) hi
    have hopened : (arena.openScope start none).scopes[i]? = arena.scopes[i]? := by
      rw [Arena.openScope, Array.getElem?_push]
      exact if_neg (Nat.ne_of_lt hlt)
    rw [getElem?_close hclosed hlt, h.outside i hinner, hopened]
  · rw [Array.getElem?_eq_none (Nat.not_lt.1 hlt),
      Array.getElem?_eq_none (Nat.le_trans (Nat.le_of_eq hedits.size_eq) (Nat.not_lt.1 hlt))]

end WritesAlong

end Arena

/-! ## Computations -/

/-- A computation that writes along the chain of the current scope only. -/
def Eval.StaysOnChain {α : Type} (x : Eval α) : Prop :=
  ∀ m : Machine, (x m).2.scope = m.scope ∧ m.arena.WritesAlong m.scope (x m).2.arena

namespace Eval.StaysOnChain

variable {α β : Type} {x : Eval α}

theorem of_eq (h : ∀ m, (x m).2.scope = m.scope ∧ (x m).2.arena = m.arena) : x.StaysOnChain :=
  fun m => ⟨(h m).1, (h m).2 ▸ .refl _ _⟩

theorem ofExcept (result : Except Fault α) : (Eval.ofExcept result).StaysOnChain :=
  of_eq fun m => by cases result <;> exact ⟨rfl, rfl⟩

/-- Computations in sequence stay on the chain, if each of them does. -/
theorem bind {f : α → Eval β} (hx : x.StaysOnChain) (hf : ∀ a, (f a).StaysOnChain) :
    (x >>= f).StaysOnChain := by
  intro m
  have hafter := hx m
  rcases hxm : x m with ⟨a | fault | _, m'⟩ <;> rw [hxm] at hafter
  · rw [Eval.bind_of_value hxm]
    obtain ⟨hscope, hwrites⟩ := hafter
    obtain ⟨hscope', hwrites'⟩ := hf a m'
    rw [hscope] at hscope' hwrites'
    exact ⟨hscope', hwrites.trans hwrites'⟩
  · rwa [Eval.bind_of_fault hxm]
  · rwa [Eval.bind_of_exhausted hxm]

/-- A change of variables stays on the chain, if it changes them along it. -/
theorem updateArena {f : Arena → Option Nat → Except Fault Arena}
    (hf : ∀ {arena start arena'}, f arena start = .ok arena' → arena.WritesAlong start arena') :
    (Eval.updateArena f).StaysOnChain := by
  intro m
  rcases hupdate : f m.arena m.scope with fault | arena
  · simp only [Eval.updateArena, hupdate]
    exact ⟨trivial, .refl _ _⟩
  · simp only [Eval.updateArena, hupdate]
    exact ⟨trivial, hf hupdate⟩

theorem giveBack (value : Value) (position : Position) :
    (Eval.giveBack value position).StaysOnChain := by
  refine of_eq fun m => ?_
  rw [Eval.giveBack_eq]
  split
  · exact ⟨rfl, rfl⟩
  · split <;> exact ⟨rfl, rfl⟩

/-- A block has a scope of its own, which is gone when it is left. -/
theorem withScope (hx : x.StaysOnChain) : (Eval.withScope none x).StaysOnChain := by
  intro m
  obtain ⟨-, hwrites⟩ := hx (m.opened none)
  obtain ⟨closed, hclose, hclosed⟩ := hwrites.close_openScope
  rw [Machine.opened] at hclose
  simp only [Eval.withScope, hclose]
  exact ⟨trivial, hclosed⟩

end Eval.StaysOnChain

/-- Staying on a chain, as a relation that looks at the first computation only. -/
def chaining : Congruence where
  rel x _ := x.StaysOnChain
  pure a := .ofExcept (.ok a)
  fail fault := .ofExcept (.error fault)
  bind := .bind
  readVariable _ _ m := Eval.StaysOnChain.ofExcept _ m
  declare _ _ _ _ := .updateArena .declare
  assign _ _ _ := .updateArena .assign
  emit _ := .of_eq fun _ => ⟨rfl, rfl⟩
  giveBack value position := .giveBack value position
  isReturning := .of_eq fun _ => ⟨rfl, rfl⟩
  takeReturned := .of_eq fun _ => ⟨rfl, rfl⟩
  nested h := h.withScope

/-! ## Names that stay in sight -/

namespace Arena

variable {arena arena' : Arena}

theorem size_eq_of_outline (h : arena'.outline = arena.outline) : arena'.size = arena.size := by
  have hiff : ∀ i, arena'.size ≤ i ↔ arena.size ≤ i := fun i => by
    rw [← outline_eq_none, ← outline_eq_none, h]
  exact Nat.le_antisymm ((hiff _).2 (Nat.le_refl _)) ((hiff _).1 (Nat.le_refl _))

/-- All of a variable but its value, with the index of its scope. -/
def shown (found : Nat × Variable) : Nat × ValueType × Position :=
  (found.1, found.2.type, found.2.position)

/-- What a name means depends on outlines only, but for the value. -/
theorem resolve_congr (h : arena'.outline = arena.outline) (start : Option Nat) (name : String) :
    (arena'.resolve start name).map (Option.map shown) =
      (arena.resolve start name).map (Option.map shown) := by
  refine search_congr (size_eq_of_outline h) (fun i => ?_) start
  have hi := congrFun h i
  unfold outline at hi
  rcases hscope : arena.scopes[i]? with _ | scope
  · rw [hscope, Option.map_none, Option.map_eq_none_iff] at hi
    rw [hi]
    exact .none
  · rw [hscope, Option.map_some, Option.map_eq_some_iff] at hi
    obtain ⟨scope', hscope', houtline⟩ := hi
    have hfind := scope'.find?_outline name
    rw [houtline, ← scope.find?_outline name] at hfind
    rw [hscope']
    refine .some ⟨congrArg Scope.Outline.parent houtline,
      congrArg Scope.Outline.returnType houtline, ?_⟩
    rcases hfound : scope.find? name with _ | entry
    · rw [hfound, Option.map_none, Option.map_eq_none_iff] at hfind
      rw [hfind]
    · rw [hfound, Option.map_some, Option.map_eq_some_iff] at hfind
      obtain ⟨entry', hfound', heq⟩ := hfind
      obtain ⟨-, htype, hposition⟩ := Scope.Entry.mk.inj heq
      simp only [hfound', Option.map_some, shown, htype, hposition]

end Arena

section
variable (setting : Setting) (bound : Nat)

theorem chaining_repeats : chaining.Repeats bound bound :=
  chaining.repeats_same (.of_eq fun _ => ⟨rfl, rfl⟩) bound

/-- **Statements write along the chain of the current scope only.** -/
theorem execute_staysOnChain (s : Statement) :
    (execute setting (invoke setting bound) bound s).StaysOnChain := by
  have hcalls : ∀ function arguments position,
      (invoke setting bound function arguments position).StaysOnChain := by
    intro function arguments position
    have hcall := (supports_scopes setting bound).calls function arguments position fun _ _ => True
    exact .of_eq fun m => (hcall m trivial).1.symm
  have hlinks : chaining.Links setting setting (invoke setting bound) (invoke setting bound) bound
      bound :=
    ⟨rfl, rfl, fun function _ arguments position => hcalls function arguments position,
      chaining_repeats bound⟩
  exact hlinks.execute s

/-- What an executed statement has added to the current scope: a declaration that has succeeded, its
own name. -/
def Statement.added (s : Statement) : Outcome Unit → List Scope.Entry
  | .value _ => s.entries
  | .fault _ => []
  | .exhausted => []

/-- A declaration that succeeds adds its name, which was not there, and one that fails nothing. -/
theorem execute_declaration_outline (d : Declaration) (m : Machine) :
    (execute setting (invoke setting bound) bound (.declaration d) m).2.arena.outline =
        extendAt m.scope ((Statement.declaration d).added
          (execute setting (invoke setting bound) bound (.declaration d) m).1) m.arena.outline ∧
      ((execute setting (invoke setting bound) bound (.declaration d) m).1 = .value () →
        ∃ i outline, m.scope = some i ∧ m.arena.outline i = some outline ∧
          d.name ∉ outline.entries.map Scope.Entry.name) := by
  have hkeeps := evaluate_keeps setting bound d.initializer m
  rw [execute, declareVariable]
  rcases hvalue : evaluate setting (invoke setting bound) d.initializer m with ⟨a | fault | _, m₁⟩
  all_goals rw [hvalue] at hkeeps
  all_goals obtain ⟨hscope, houtline⟩ := hkeeps
  · rw [Eval.bind_of_value hvalue, Eval.declare, Eval.updateArena]
    rcases hdeclare : m₁.arena.declare m₁.scope d.name a d.type d.position with fault | arena
    · simp only [Statement.added]
      exact ⟨houtline.trans extendAt_nil.symm, fun h => by cases h⟩
    · obtain ⟨hdeclared, hfresh⟩ := Arena.outline_declare hdeclare
      rw [hscope, houtline] at hdeclared hfresh
      simp only [Statement.added]
      exact ⟨hdeclared, fun _ => hfresh⟩
  · rw [Eval.bind_of_fault hvalue]
    exact ⟨houtline.trans extendAt_nil.symm, fun h => by cases h⟩
  · rw [Eval.bind_of_exhausted hvalue]
    exact ⟨houtline.trans extendAt_nil.symm, fun h => by cases h⟩

theorem Statement.added_eq_nil {s : Statement} (h : ∀ d, s ≠ .declaration d)
    (outcome : Outcome Unit) : s.added outcome = [] := by
  cases s with
  | declaration d => exact absurd rfl (h d)
  | _ => cases outcome <;> rfl

/-- After a statement the current scope declares what the statement has added, and all outlines are
the same otherwise. -/
theorem execute_outline {s : Statement} {m m' : Machine} {outcome : Outcome Unit}
    (h : execute setting (invoke setting bound) bound s m = (outcome, m')) :
    m'.arena.outline = extendAt m.scope (s.added outcome) m.arena.outline ∧
      ∀ entry ∈ s.added outcome, ∃ i outline, m.scope = some i ∧
        m.arena.outline i = some outline ∧ entry.name ∉ outline.entries.map Scope.Entry.name := by
  by_cases hs : ∃ d, s = .declaration d
  · obtain ⟨d, rfl⟩ := hs
    obtain ⟨houtline, hfresh⟩ := execute_declaration_outline setting bound d m
    rw [h] at houtline hfresh
    refine ⟨houtline, fun entry hentry => ?_⟩
    cases outcome with
    | value =>
      obtain rfl := List.mem_singleton.1 hentry
      exact hfresh rfl
    | fault => cases hentry
    | exhausted => cases hentry
  · have hother : ∀ d, s ≠ .declaration d := fun d hd => hs ⟨d, hd⟩
    obtain ⟨-, houtline⟩ := execute_keeps setting bound hother m
    rw [h] at houtline
    rw [Statement.added_eq_nil hother, extendAt_nil]
    exact ⟨houtline, fun entry hentry => by cases hentry⟩

/-- A call that is a statement leaves every variable of its caller. -/
theorem execute_call_arena {position : Position} {name : String} {arguments : List Expression}
    {m m' : Machine} {outcome : Outcome Unit}
    (h : execute setting (invoke setting bound) bound (.call position name arguments) m =
      (outcome, m')) : m'.arena = m.arena := by
  have hcall := (evaluate_follows (supports_scopes setting bound) (.call position name arguments) m
    fun _ _ _ _ => trivial).1
  rw [execute, ← evaluate] at h
  rcases hvalue : evaluate setting (invoke setting bound) (.call position name arguments) m with
    ⟨a | fault | _, m₁⟩
  all_goals rw [hvalue] at hcall
  · rw [Eval.bind_of_value hvalue] at h
    cases h
    exact hcall.1
  · rw [Eval.bind_of_fault hvalue] at h
    cases h
    exact hcall.1
  · rw [Eval.bind_of_exhausted hvalue] at h
    cases h
    exact hcall.1

/-- **Statements write only where they may.** However a statement ends, scopes off the chain of the
current scope are what they were. Every scope declares the same names, of the same types and at the
same positions, but for the name that a declaration has added to the current scope, where it was not
declared before. As many scopes are open, and the current one is the same.

So after all other statements each name means what it meant, but for its value; and a call leaves
its caller even the values. -/
theorem execute_writes (s : Statement) (m : Machine) :
    ∃ outcome m', execute setting (invoke setting bound) bound s m = (outcome, m') ∧
      (∀ i, ¬ m.arena.OnChain m.scope i → m'.arena.scopes[i]? = m.arena.scopes[i]?) ∧
      m'.arena.outline = extendAt m.scope (s.added outcome) m.arena.outline ∧
      (∀ entry ∈ s.added outcome, ∃ i outline, m.scope = some i ∧
        m.arena.outline i = some outline ∧ entry.name ∉ outline.entries.map Scope.Entry.name) ∧
      m'.arena.size = m.arena.size ∧ m'.scope = m.scope ∧
      (s.added outcome = [] → ∀ name,
        (m'.arena.resolve m'.scope name).map (Option.map Arena.shown) =
          (m.arena.resolve m.scope name).map (Option.map Arena.shown)) ∧
      (∀ position name arguments, s = .call position name arguments → m'.arena = m.arena) := by
  obtain ⟨hscope, hwrites⟩ := execute_staysOnChain setting bound s m
  rcases hexecute : execute setting (invoke setting bound) bound s m with ⟨outcome, m'⟩
  rw [hexecute] at hscope hwrites
  obtain ⟨houtline, hfresh⟩ := execute_outline setting bound hexecute
  refine ⟨outcome, m', rfl, hwrites.outside, houtline, hfresh, hwrites.size_eq, hscope,
    fun hnone name => ?_, ?_⟩
  · rw [hnone, extendAt_nil] at houtline
    rw [hscope]
    exact Arena.resolve_congr houtline m.scope name
  · rintro position name arguments rfl
    exact execute_call_arena setting bound hexecute

end

end FLang
