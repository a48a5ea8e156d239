import FLang.Proofs.Canonical.Words
import FLang.Proofs.Runs.Steps
import FLang.Proofs.Scopes.Region

/-!
# Machines without positions

Running programs carry positions in two places: variables remember where they were declared, and
faults say where they arose. Both are left out by erasure (`Machine.erase`, `Fault.erase`).

* `Arena.declare_erase`, … — what is done to scopes is done alike to scopes without positions, but
  for the positions of its faults;
* `Eval.ErasesTo` — a computation on machines without positions does what another one does, but for
  positions. The operations of `Eval` and sequences of them keep this.
-/

namespace FLang

/-! ## Erasure -/

/-- A cause without positions. -/
def Diagnostic.Cause.erase : Diagnostic.Cause → Diagnostic.Cause
  | .functionRedefinition name _ => .functionRedefinition name .start
  | .redeclaredVariable name _ => .redeclaredVariable name .start
  | cause => cause

/-- A fault without positions. Whether it has one is kept. -/
def Fault.erase : Fault → Fault
  | .diagnostic d =>
    .diagnostic { d with cause := d.cause.erase, position := d.position.map fun _ => .start }
  | fault => fault

/-- An outcome without positions. -/
def Outcome.erase {α : Type} : Outcome α → Outcome α
  | .value a => .value a
  | .fault f => .fault f.erase
  | .exhausted => .exhausted

/-- A variable without its position. -/
def Variable.erase (v : Variable) : Variable :=
  { v with position := .start }

/-- A scope without positions. -/
def Scope.erase (scope : Scope) : Scope :=
  { scope with bindings := scope.bindings.map fun binding => (binding.1, binding.2.erase) }

/-- Scopes without positions. -/
def Arena.erase (arena : Arena) : Arena :=
  ⟨arena.scopes.map Scope.erase⟩

/-- A machine without positions. -/
def Machine.erase (m : Machine) : Machine :=
  { m with arena := m.arena.erase }

/-- Results that differ in the positions of their faults only. -/
inductive SameResult {α : Type} : Except Fault α → Except Fault α → Prop
  | ok (a : α) : SameResult (.ok a) (.ok a)
  | error {fault fault' : Fault} : fault'.erase = fault.erase →
    SameResult (.error fault) (.error fault')

namespace SameResult

variable {α β : Type} {r r' : Except Fault α}

/-- The position of an error does not matter. -/
theorem semantic (position position' : Position) (cause : Diagnostic.Cause) :
    SameResult (.error (.semantic position cause) : Except Fault α)
      (.error (.semantic position' cause)) :=
  .error rfl

/-- Results that are the same up to positions stay so under a function. -/
theorem map (h : SameResult r r') (f : α → β) : SameResult (r.map f) (r'.map f) := by
  cases h with
  | ok a => exact .ok (f a)
  | error h => exact .error h

end SameResult

/-! ## Scopes -/

/-- A variable is found by its name, with or without positions. -/
@[simp] theorem Scope.find?_erase (scope : Scope) (name : String) :
    scope.erase.find? name = (scope.find? name).map Variable.erase := by
  obtain ⟨parent, returnType, bindings⟩ := scope
  simp only [Scope.find?, Scope.erase]
  induction bindings with
  | nil => rfl
  | cons binding bindings ih =>
    rw [List.map_cons, List.lookup_cons, List.lookup_cons]
    cases name == binding.1 with
    | true => rfl
    | false => exact ih

/-- Declaring in a scope without positions. -/
@[simp] theorem Scope.insert_erase (scope : Scope) (name : String) (entry : Variable) :
    (scope.insert name entry).erase = scope.erase.insert name entry.erase :=
  rfl

/-- Assigning changes a value, and the position of a declaration is left as it is. -/
@[simp] theorem Scope.update_erase (scope : Scope) (name : String) (value : Value) :
    (scope.update name value).erase = scope.erase.update name value := by
  simp only [Scope.update, Scope.erase, List.map_map, Scope.mk.injEq, true_and]
  refine List.map_congr_left fun binding _ => ?_
  simp only [Function.comp_apply]
  split <;> rfl

namespace Arena

variable {arena : Arena}

@[simp] theorem getElem?_erase (arena : Arena) (i : Nat) :
    arena.erase.scopes[i]? = arena.scopes[i]?.map Scope.erase :=
  Array.getElem?_map

/-- As many scopes are open. -/
@[simp] theorem size_erase (arena : Arena) : arena.erase.size = arena.size :=
  Array.size_map

/-- A search finds the same without positions, if it looks for the same. -/
theorem search_erase {α β : Type} {found? : Nat → Scope → Option α}
    {found?' : Nat → Scope → Option β} {f : α → β}
    (h : ∀ i scope, found?' i scope.erase = (found? i scope).map f) (start : Option Nat) :
    arena.erase.search found?' start = (arena.search found? start).map (Option.map f) := by
  have hsame : (arena.erase.search found?' start).map (Option.map id) =
      (arena.search found? start).map (Option.map f) := by
    refine search_congr (size_erase arena) (fun i => ?_) start
    rw [getElem?_erase]
    rcases arena.scopes[i]? with _ | scope
    · exact .none
    · exact .some ⟨rfl, rfl, (Option.map_id_apply ..).trans (h i scope)⟩
  rwa [Option.map_id, Except.map_id] at hsame

/-- Looking a name up without positions finds the same scope, and the variable in it without its
position. -/
@[simp] theorem resolve_erase (start : Option Nat) (name : String) :
    arena.erase.resolve start name =
      (arena.resolve start name).map (Option.map fun found => (found.1, found.2.erase)) := by
  refine search_erase (fun i scope => ?_) start
  rw [Scope.find?_erase, Option.map_map, Option.map_map]
  rfl

/-- The type that a call returns is found alike. -/
@[simp] theorem returnTypeOf_erase (start : Option Nat) :
    arena.erase.returnTypeOf start = arena.returnTypeOf start := by
  have hsearch : arena.erase.search (fun _ scope => scope.returnType) start =
      (arena.search (fun _ scope => scope.returnType) start).map (Option.map id) :=
    search_erase (fun _ scope => (Option.map_id_apply ..).symm) start
  rw [returnTypeOf, returnTypeOf, hsearch, Option.map_id, Except.map_id]
  rfl

/-- Changing a scope and leaving out positions can be done in either order. -/
theorem modify_erase {f f' : Scope → Scope} (h : ∀ scope, (f scope).erase = f' scope.erase)
    (i : Nat) :
    (⟨arena.scopes.modify i f⟩ : Arena).erase = ⟨arena.erase.scopes.modify i f'⟩ := by
  refine congrArg Arena.mk (Array.ext_getElem? fun j => ?_)
  rw [Array.getElem?_map, Array.getElem?_modify, Array.getElem?_modify, getElem?_erase]
  split
  · rw [Option.map_map, Option.map_map]
    exact congrArg (arena.scopes[j]?.map ·) (funext h)
  · rfl

/-- Reading a variable. -/
theorem valueOf_erase (start : Option Nat) (name : String) (position position' : Position) :
    SameResult (arena.valueOf start name position) (arena.erase.valueOf start name position') := by
  rw [valueOf, valueOf, lookup, lookup, resolve_erase]
  rcases arena.resolve start name with fault | _ | ⟨i, entry⟩
  · exact .error rfl
  · exact .semantic _ _ _
  · exact .ok _

/-- Declaring a variable. -/
theorem declare_erase (start : Option Nat) (name : String) (value : Value) (type : ValueType)
    (position : Position) :
    SameResult ((arena.declare start name value type position).map Arena.erase)
      (arena.erase.declare start name value type .start) := by
  rcases start with _ | i
  · exact .error rfl
  simp only [declare, getElem?_erase]
  rcases arena.scopes[i]? with _ | scope
  · exact .error rfl
  simp only [Option.map_some, Scope.find?_erase]
  rcases scope.find? name with _ | earlier
  · simp only [Option.map_none]
    unfold checkType
    split
    · have hmodify :
          (⟨arena.scopes.modify i (·.insert name ⟨value, type, position⟩)⟩ : Arena).erase =
          ⟨arena.erase.scopes.modify i (·.insert name ⟨value, type, .start⟩)⟩ :=
        modify_erase (fun scope => scope.insert_erase name _) i
      simp only [bind, Except.bind, pure, Except.pure, Except.map, hmodify]
      exact .ok _
    · exact .semantic _ _ _
  · exact .error rfl

/-- Assigning to a variable. -/
theorem assign_erase (start : Option Nat) (name : String) (value : Value)
    (position position' : Position) :
    SameResult ((arena.assign start name value position).map Arena.erase)
      (arena.erase.assign start name value position') := by
  simp only [assign, resolve_erase]
  rcases arena.resolve start name with fault | _ | ⟨i, entry⟩
  · exact .error rfl
  · exact .semantic _ _ _
  · have hmodify : (⟨arena.scopes.modify i (·.update name value)⟩ : Arena).erase =
        ⟨arena.erase.scopes.modify i (·.update name value)⟩ :=
      modify_erase (fun scope => scope.update_erase name value) i
    simp only [bind, Except.bind, Except.map, Option.map_some, Variable.erase, checkType]
    by_cases htype : value.type = entry.type
    · simp only [if_pos htype, pure, Except.pure, hmodify]
      exact .ok _
    · simp only [if_neg htype]
      exact .semantic _ _ _

/-- Opening a scope without positions. -/
@[simp] theorem openScope_erase (parent : Option Nat) (returnType : Option ValueType) :
    (arena.openScope parent returnType).erase = arena.erase.openScope parent returnType := by
  simp only [openScope, erase, Array.map_push]
  rfl

/-- Closing scopes without positions. -/
@[simp] theorem close_erase (index : Nat) :
    arena.erase.close index = (arena.close index).map Arena.erase := by
  unfold close
  rw [size_erase]
  split
  · simp [erase, Except.map, Array.take_eq_extract]
  · rfl

end Arena

/-! ## Computations -/

/-- The second computation does on machines without positions what the first one does, but for
positions. -/
def Eval.ErasesTo {α : Type} (x y : Eval α) : Prop :=
  ∀ m : Machine, (y m.erase).1.erase = (x m).1.erase ∧ (y m.erase).2 = (x m).2.erase

/-- Values have no positions. -/
theorem Outcome.erase_eq_value {α : Type} {outcome : Outcome α} {a : α}
    (h : outcome.erase = .value a) : outcome = .value a := by
  cases outcome <;> cases h
  rfl

theorem Outcome.erase_eq_exhausted {α : Type} {outcome : Outcome α}
    (h : outcome.erase = .exhausted) : outcome = .exhausted := by
  cases outcome <;> cases h
  rfl

/-- A fault without positions comes from a fault. -/
theorem Outcome.erase_eq_fault {α : Type} {outcome : Outcome α} {fault : Fault}
    (h : outcome.erase = .fault fault) : ∃ f, outcome = .fault f ∧ f.erase = fault := by
  cases outcome with
  | fault f => exact ⟨f, rfl, Outcome.fault.inj h⟩
  | value a => cases h
  | exhausted => cases h

namespace Eval.ErasesTo

variable {α β : Type} {x y : Eval α}

theorem pure (a : α) : (Pure.pure a : Eval α).ErasesTo (Pure.pure a) :=
  fun _ => ⟨rfl, rfl⟩

/-- Faults that are equal without positions carry over to one another. -/
theorem fail {fault fault' : Fault} (h : fault'.erase = fault.erase) :
    (Eval.fail fault : Eval α).ErasesTo (Eval.fail fault') :=
  fun _ => ⟨congrArg Outcome.fault h, rfl⟩

/-- An error can be raised at any position instead. -/
theorem raise (position position' : Position) (cause : Diagnostic.Cause) :
    (Eval.raise position cause : Eval α).ErasesTo (Eval.raise position' cause) :=
  fail rfl

theorem exhausted : (Eval.exhausted : Eval α).ErasesTo Eval.exhausted :=
  fun _ => ⟨rfl, rfl⟩

/-- Results that are the same up to positions carry over. -/
theorem ofExcept {r r' : Except Fault α} (h : SameResult r r') :
    (Eval.ofExcept r).ErasesTo (Eval.ofExcept r') := by
  cases h with
  | ok a => exact pure a
  | error h => exact fail h

/-- Sequences carry over part by part: a value is the same on both sides, so both go on or neither
does. -/
theorem bind {f g : α → Eval β} (hx : x.ErasesTo y) (hf : ∀ a, (f a).ErasesTo (g a)) :
    (x >>= f).ErasesTo (y >>= g) := by
  intro m
  have h := hx m
  rcases hxm : x m with ⟨a | fault | _, m₁⟩
  all_goals rw [hxm] at h
  all_goals obtain ⟨houtcome, hmachine⟩ := h
  · have hym : y m.erase = (.value a, m₁.erase) :=
      Prod.ext (Outcome.erase_eq_value houtcome) hmachine
    rw [Eval.bind_of_value hxm, Eval.bind_of_value hym]
    exact hf a m₁
  · obtain ⟨fault', hfault', herase⟩ := Outcome.erase_eq_fault houtcome
    have hym : y m.erase = (.fault fault', m₁.erase) := Prod.ext hfault' hmachine
    rw [Eval.bind_of_fault hxm, Eval.bind_of_fault hym]
    exact ⟨congrArg Outcome.fault herase, rfl⟩
  · have hym : y m.erase = (.exhausted, m₁.erase) :=
      Prod.ext (Outcome.erase_eq_exhausted houtcome) hmachine
    rw [Eval.bind_of_exhausted hxm, Eval.bind_of_exhausted hym]
    exact ⟨rfl, rfl⟩

theorem map (h : x.ErasesTo y) (f : α → β) : (f <$> x).ErasesTo (f <$> y) :=
  h.bind fun a => pure (f a)

/-- A question carries over, if its answer does not depend on positions. -/
theorem ask {f g : Machine → Except Fault α} (h : ∀ m, SameResult (f m) (g m.erase)) :
    (Eval.ask f).ErasesTo (Eval.ask g) :=
  fun m => ofExcept (h m) m

/-- A change of the arena carries over, if it can be made without positions. -/
theorem updateArena {f g : Arena → Option Nat → Except Fault Arena}
    (h : ∀ arena scope, SameResult ((f arena scope).map Arena.erase) (g arena.erase scope)) :
    (Eval.updateArena f).ErasesTo (Eval.updateArena g) := by
  intro m
  have hsame := h m.arena m.scope
  have harena : m.erase.arena = m.arena.erase := rfl
  have hscope : m.erase.scope = m.scope := rfl
  unfold Eval.updateArena
  rw [harena, hscope]
  generalize f m.arena m.scope = r at hsame
  generalize g m.arena.erase m.scope = r' at hsame
  cases r with
  | ok arena =>
    cases hsame
    exact ⟨rfl, rfl⟩
  | error fault =>
    cases hsame with
    | error herase => exact ⟨congrArg Outcome.fault herase, rfl⟩

theorem readVariable (name : String) (position position' : Position) :
    (Eval.readVariable name position).ErasesTo (Eval.readVariable name position') :=
  ask fun m => m.arena.valueOf_erase m.scope name position position'

/-- A variable is declared, with its position or without. -/
theorem declare (name : String) (value : Value) (type : ValueType) (position : Position) :
    (Eval.declare name value type position).ErasesTo (Eval.declare name value type .start) :=
  updateArena fun arena scope => arena.declare_erase scope name value type position

theorem assign (name : String) (value : Value) (position position' : Position) :
    (Eval.assign name value position).ErasesTo (Eval.assign name value position') :=
  updateArena fun arena scope => arena.assign_erase scope name value position position'

theorem emit (text : String) : (Eval.emit text).ErasesTo (Eval.emit text) :=
  fun _ => ⟨rfl, rfl⟩

theorem isReturning : Eval.isReturning.ErasesTo Eval.isReturning :=
  fun _ => ⟨rfl, rfl⟩

theorem takeReturned : Eval.takeReturned.ErasesTo Eval.takeReturned :=
  fun _ => ⟨rfl, rfl⟩

/-- Giving a value back asks for the type of the call only. -/
theorem giveBack (value : Value) (position position' : Position) :
    (Eval.giveBack value position).ErasesTo (Eval.giveBack value position') := by
  intro m
  have htype : m.erase.arena.returnTypeOf m.erase.scope = m.arena.returnTypeOf m.scope :=
    m.arena.returnTypeOf_erase m.scope
  rw [Eval.giveBack_eq, Eval.giveBack_eq, htype]
  cases m.arena.returnTypeOf m.scope with
  | error fault => exact ⟨rfl, rfl⟩
  | ok expected =>
    by_cases hexpected : value.type = expected
    · simp only [if_pos hexpected]
      exact ⟨trivial, rfl⟩
    · simp only [if_neg hexpected]
      exact ⟨rfl, trivial⟩

/-- A scope is opened and closed around both. -/
theorem withScope (h : x.ErasesTo y) (returnType : Option ValueType) :
    (Eval.withScope returnType x).ErasesTo (Eval.withScope returnType y) := by
  intro m
  have hopened : ({ m with arena := m.arena.openScope m.scope returnType,
                           scope := some m.arena.size } : Machine).erase =
      { m.erase with arena := m.erase.arena.openScope m.erase.scope returnType,
                     scope := some m.erase.arena.size } := by
    simp only [Machine.erase, Arena.openScope_erase, Arena.size_erase]
  have hbody :=
    h { m with arena := m.arena.openScope m.scope returnType, scope := some m.arena.size }
  have hsize : m.erase.arena.size = m.arena.size := m.arena.size_erase
  rw [hopened] at hbody
  unfold Eval.withScope
  simp only [hsize] at hbody ⊢
  rcases hx : x { m with arena := m.arena.openScope m.scope returnType,
                         scope := some m.arena.size } with ⟨outcome, m₁⟩
  rcases hy : y { m.erase with arena := m.erase.arena.openScope m.erase.scope returnType,
                               scope := some m.arena.size } with ⟨outcome', m₁'⟩
  rw [hx, hy] at hbody
  obtain ⟨houtcome, rfl⟩ : outcome'.erase = outcome.erase ∧ m₁' = m₁.erase := hbody
  have hclose : m₁.erase.arena.close m.arena.size =
      (m₁.arena.close m.arena.size).map Arena.erase := m₁.arena.close_erase m.arena.size
  simp only [hclose]
  cases m₁.arena.close m.arena.size with
  | ok arena => exact ⟨houtcome, rfl⟩
  | error fault => exact ⟨rfl, rfl⟩

/-- A call is active around both. -/
theorem whileActive (h : x.ErasesTo y) (name : String) :
    (Eval.whileActive name x).ErasesTo (Eval.whileActive name y) := by
  intro m
  have hbody := h { m with calls := m.calls.push name }
  unfold Eval.whileActive
  rcases hx : x { m with calls := m.calls.push name } with ⟨outcome, m₁⟩
  rcases hy : y { m.erase with calls := m.erase.calls.push name } with ⟨outcome', m₁'⟩
  have hpushed : ({ m with calls := m.calls.push name } : Machine).erase =
      { m.erase with calls := m.erase.calls.push name } := rfl
  rw [hx, hpushed, hy] at hbody
  obtain ⟨houtcome, rfl⟩ : outcome'.erase = outcome.erase ∧ m₁' = m₁.erase := hbody
  exact ⟨houtcome, rfl⟩

/-- Loops of one bound. -/
theorem iterate {test test' : Eval Bool} {body body' : Eval Unit} (htest : test.ErasesTo test')
    (hbody : body.ErasesTo body') (bound : Nat) :
    Eval.ErasesTo (Eval.iterate test body bound) (Eval.iterate test' body' bound) := by
  induction bound with
  | zero => exact exhausted
  | succ bound ih =>
    rw [Eval.iterate_succ, Eval.iterate_succ]
    refine htest.bind fun holds => ?_
    cases holds with
    | false => exact pure ()
    | true =>
      refine hbody.bind fun _ => isReturning.bind fun returning => ?_
      cases returning with
      | true => exact pure ()
      | false => exact ih

end Eval.ErasesTo

end FLang
