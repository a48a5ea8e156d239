import FLang.Proofs.Scopes.Region
import Mathlib.Data.List.Nodup

/-!
# Variables of the declared types

A declaration and an assignment look at the type of the value that they are given. So, whatever is
done to the open scopes, a variable holds a value of the type that it was declared with.

* `Arena.Keeps` — all variables of the open scopes have a property, and no scope has two of a name.
  Whatever is done to scopes keeps a property that the check of types establishes
  (`Keeps.declare`, `Keeps.assign`, …);
* `Arena.WellTyped` — the property that matters in a running program.
-/

namespace FLang

/-- A scope of different names, all of whose variables have a property. -/
structure Scope.Keeps (P : Variable → Prop) (scope : Scope) : Prop where
  names : (scope.bindings.map Prod.fst).Nodup
  entries : ∀ binding ∈ scope.bindings, P binding.2

/-- All open scopes are such scopes. -/
def Arena.Keeps (P : Variable → Prop) (arena : Arena) : Prop :=
  ∀ (i : Nat) (scope : Scope), arena.scopes[i]? = some scope → scope.Keeps P

/-- A variable that holds a value of its type, which is not the absence of a value. -/
structure Variable.WellTyped (entry : Variable) : Prop where
  value_type : entry.value.type = entry.type
  type_ne_void : entry.type ≠ .void

/-- A scope of different names, whose variables are well typed. -/
structure Scope.WellTyped (scope : Scope) : Prop where
  names : (scope.bindings.map Prod.fst).Nodup
  entries : ∀ binding ∈ scope.bindings, binding.2.WellTyped

/-- All open scopes are well typed. -/
def Arena.WellTyped (arena : Arena) : Prop :=
  ∀ (i : Nat) (scope : Scope), arena.scopes[i]? = some scope → scope.WellTyped

theorem Arena.wellTyped_iff {arena : Arena} :
    arena.WellTyped ↔ arena.Keeps Variable.WellTyped :=
  ⟨fun h i scope hscope => ⟨(h i scope hscope).names, (h i scope hscope).entries⟩,
    fun h i scope hscope => ⟨(h i scope hscope).names, (h i scope hscope).entries⟩⟩

namespace Scope.Keeps

variable {P : Variable → Prop} {scope : Scope} {name : String}

/-- A new name is declared. -/
theorem insert (h : scope.Keeps P) (hnew : scope.find? name = none) {entry : Variable}
    (hentry : P entry) : (scope.insert name entry).Keeps P := by
  refine ⟨?_, List.forall_mem_cons.2 ⟨hentry, h.entries⟩⟩
  have hmem : name ∉ scope.bindings.map Prod.fst := by
    intro hmem
    obtain ⟨binding, hbinding, rfl⟩ := List.mem_map.1 hmem
    simpa using List.lookup_eq_none_iff.1 hnew binding hbinding
  exact List.nodup_cons.2 ⟨hmem, h.names⟩

/-- There is one variable of a name. -/
theorem eq_of_mem (h : scope.Keeps P) {entry entry' : Variable}
    (hfind : scope.find? name = some entry) (hmem : (name, entry') ∈ scope.bindings) :
    entry' = entry := by
  obtain ⟨before, after, heq, -⟩ := List.lookup_eq_some_iff.1 hfind
  have hfound : (name, entry) ∈ scope.bindings := by simp [heq]
  exact congrArg Prod.snd (List.inj_on_of_nodup_map h.names hmem hfound rfl)

/-- A variable gets another value. -/
theorem update (h : scope.Keeps P) {entry : Variable} (hfind : scope.find? name = some entry)
    {value : Value} (hvalue : P entry → P { entry with value }) :
    (scope.update name value).Keeps P := by
  refine ⟨?_, ?_⟩
  · have hnames : (scope.update name value).bindings.map Prod.fst =
        scope.bindings.map Prod.fst := by
      simp only [Scope.update, List.map_map]
      refine List.map_congr_left fun binding _ => ?_
      simp only [Function.comp]
      split <;> rfl
    rw [hnames]
    exact h.names
  · intro binding hbinding
    obtain ⟨⟨key, old⟩, hold, rfl⟩ := List.mem_map.1 hbinding
    by_cases hkey : key = name
    · subst hkey
      obtain rfl := h.eq_of_mem hfind hold
      simp only [if_true]
      exact hvalue (h.entries _ hold)
    · simp only [if_neg hkey]
      exact h.entries _ hold

end Scope.Keeps

namespace Arena

variable {arena arena' : Arena} {name : String} {value : Value} {position : Position}

/-- What a search finds, it finds in an open scope. -/
theorem searchUpTo_found {α : Type} {found? : Nat → Scope → Option α} {fuel : Nat}
    {start : Option Nat} {a : α} (h : arena.searchUpTo found? fuel start = .ok (some a)) :
    ∃ i scope, arena.scopes[i]? = some scope ∧ found? i scope = some a := by
  induction fuel generalizing start with
  | zero => cases start <;> cases h
  | succ fuel ih =>
    cases start with
    | none => cases h
    | some index =>
      obtain ⟨scope, hscope, hfound | ⟨-, houtward⟩⟩ := searchUpTo_succ_found h
      · exact ⟨index, scope, hscope, hfound⟩
      · exact ih houtward

/-- What is found for a name is stored under it. -/
theorem resolve_found {start : Option Nat} {index : Nat} {entry : Variable}
    (h : arena.resolve start name = .ok (some (index, entry))) :
    ∃ scope, arena.scopes[index]? = some scope ∧ scope.find? name = some entry := by
  obtain ⟨i, scope, hscope, hfound⟩ := searchUpTo_found h
  obtain ⟨entry', hentry, heq⟩ := Option.map_eq_some_iff.1 hfound
  obtain ⟨rfl, rfl⟩ := Prod.mk.inj heq
  exact ⟨scope, hscope, hentry⟩

/-- What is so of every open scope stays so when another scope is opened. -/
theorem forall_openScope {P : Nat → Scope → Prop}
    (h : ∀ (i : Nat) (scope : Scope), arena.scopes[i]? = some scope → P i scope)
    {parent : Option Nat} {returnType : Option ValueType}
    (hnew : P arena.size ⟨parent, returnType, []⟩) (i : Nat) (scope : Scope)
    (hscope : (arena.openScope parent returnType).scopes[i]? = some scope) : P i scope := by
  rcases getElem?_openScope hscope with hold | ⟨rfl, rfl⟩
  · exact h i scope hold
  · exact hnew

/-- It stays so when scopes are closed. -/
theorem forall_close {P : Nat → Scope → Prop}
    (h : ∀ (i : Nat) (scope : Scope), arena.scopes[i]? = some scope → P i scope) {index : Nat}
    (hclose : arena.close index = .ok arena') (i : Nat) (scope : Scope)
    (hscope : arena'.scopes[i]? = some scope) : P i scope := by
  rw [Arena.close] at hclose
  split at hclose
  · cases hclose
    rw [Array.take_eq_extract, Array.getElem?_extract, Nat.zero_add] at hscope
    split at hscope
    · exact h i scope hscope
    · cases hscope
  · cases hclose

/-- It stays so when it is so of a scope that is changed. -/
theorem forall_modify {P : Nat → Scope → Prop}
    (h : ∀ (i : Nat) (scope : Scope), arena.scopes[i]? = some scope → P i scope) {index : Nat}
    {f : Scope → Scope} (hf : ∀ scope, arena.scopes[index]? = some scope → P index (f scope))
    (i : Nat) (scope : Scope) (hscope : (arena.scopes.modify index f)[i]? = some scope) :
    P i scope := by
  rw [Array.getElem?_modify] at hscope
  split at hscope
  · next heq =>
    subst heq
    obtain ⟨old, hold, rfl⟩ := Option.map_eq_some_iff.1 hscope
    exact hf old hold
  · exact h i scope hscope

namespace Keeps

variable {P : Variable → Prop}

theorem empty : Arena.empty.Keeps P := by
  intro i scope h
  simp [Arena.empty] at h

theorem openScope (h : arena.Keeps P) (parent : Option Nat) (returnType : Option ValueType) :
    (arena.openScope parent returnType).Keeps P :=
  forall_openScope h ⟨List.nodup_nil, nofun⟩

theorem close (h : arena.Keeps P) {index : Nat} (hclose : arena.close index = .ok arena') :
    arena'.Keeps P :=
  forall_close h hclose

/-- A declaration checks the type of its value. -/
theorem declare (h : arena.Keeps P) {index : Option Nat} {type : ValueType}
    (hP : value.type = type → P { value, type, position })
    (hdeclare : arena.declare index name value type position = .ok arena') : arena'.Keeps P := by
  obtain ⟨i, scope, -, hscope, hfind, htype, rfl⟩ := declare_eq_ok hdeclare
  refine forall_modify h fun old hold => ?_
  obtain rfl := Option.some.inj (hscope.symm.trans hold)
  exact (h i scope hscope).insert hfind (hP htype)

/-- An assignment checks the type of its value against that of the variable. -/
theorem assign (h : arena.Keeps P) {start : Option Nat}
    (hP : ∀ entry, P entry → value.type = entry.type → P { entry with value })
    (hassign : arena.assign start name value position = .ok arena') : arena'.Keeps P := by
  obtain ⟨i, entry, hresolve, htype, rfl⟩ := assign_eq_ok hassign
  obtain ⟨scope, hscope, hfind⟩ := resolve_found hresolve
  refine forall_modify h fun old hold => ?_
  obtain rfl := Option.some.inj (hscope.symm.trans hold)
  exact (h i scope hscope).update hfind fun hentry => hP entry hentry htype

end Keeps

namespace WellTyped

theorem empty : Arena.empty.WellTyped :=
  wellTyped_iff.2 .empty

theorem openScope (h : arena.WellTyped) (parent : Option Nat) (returnType : Option ValueType) :
    (arena.openScope parent returnType).WellTyped :=
  wellTyped_iff.2 ((wellTyped_iff.1 h).openScope parent returnType)

theorem close (h : arena.WellTyped) {index : Nat} (hclose : arena.close index = .ok arena') :
    arena'.WellTyped :=
  forall_close h hclose

/-- A declaration that succeeds has checked its value. -/
theorem declare (h : arena.WellTyped) {index : Option Nat} {type : BasicType}
    (hdeclare : arena.declare index name value type position = .ok arena') :
    arena'.WellTyped := by
  refine wellTyped_iff.2 ((wellTyped_iff.1 h).declare ?_ hdeclare)
  exact fun htype => ⟨htype, nofun⟩

/-- So has an assignment. -/
theorem assign (h : arena.WellTyped) {start : Option Nat}
    (hassign : arena.assign start name value position = .ok arena') : arena'.WellTyped := by
  refine wellTyped_iff.2 ((wellTyped_iff.1 h).assign ?_ hassign)
  exact fun entry hentry htype => ⟨htype, hentry.type_ne_void⟩

end WellTyped

end Arena

end FLang
