import FLang.Scope

/-!
# The region of a call

A call opens a scope that knows what it returns, and everything that its body opens lies above that
scope in the arena. The scopes from there on are the *region* of the call.

* `search_congr` — searches in two arenas of the same shape find the same;
* `Arena.Region` — a scope is open inside a region: the way outward from it leads through open
  scopes of the region and ends at its first one;
* `Region.search_eq_ok` — so no search from it leaves the region, or meets a scope that is not open;
* `Arena.Edits` — what a body can do to the arena: change variables inside the region. Scopes below
  it are not touched, and no scope is lost, added or moved;
* `Edits.close_openScope` — closing a scope again gives back the arena in which it was opened, but
  for such changes.
-/

namespace FLang.Arena

variable {arena arena' arena'' : Arena} {base index : Nat}

/-! ## Searches -/

section
variable {α β γ : Type} {found? : Nat → Scope → Option α} {found?' : Nat → Scope → Option β}

/-- What a search finds is found in the scope where it starts, or further outward. -/
theorem searchUpTo_succ_found {fuel : Nat} {a : α}
    (h : arena.searchUpTo found? (fuel + 1) (some index) = .ok (some a)) :
    ∃ scope, arena.scopes[index]? = some scope ∧ (found? index scope = some a ∨
      scope.returnType = none ∧ arena.searchUpTo found? fuel scope.parent = .ok (some a)) := by
  rw [searchUpTo] at h
  split at h
  · cases h
  next scope hscope =>
  refine ⟨scope, hscope, ?_⟩
  split at h
  · next hfound => exact .inl (hfound.trans (Except.ok.inj h))
  · split at h
    · cases h
    · next hcall => exact .inr ⟨by simpa using hcall, h⟩

/-- Searches through scopes of the same shape find the same, up to `f` and `g`, if that is what they
find in each scope. -/
theorem search_congr {f : α → γ} {g : β → γ} (hsize : arena'.size = arena.size)
    (h : ∀ i : Nat, Option.Rel (fun scope scope' => scope'.parent = scope.parent ∧
        scope'.returnType = scope.returnType ∧ (found?' i scope').map g = (found? i scope).map f)
      arena.scopes[i]? arena'.scopes[i]?) (start : Option Nat) :
    (arena'.search found?' start).map (Option.map g) =
      (arena.search found? start).map (Option.map f) := by
  unfold search
  rw [hsize]
  -- both searches have the same fuel, since there are as many scopes; the induction is on it
  generalize arena.size + 1 = fuel
  induction fuel generalizing start with
  | zero => cases start <;> rfl
  | succ fuel ih =>
    cases start with
    | none => rfl
    | some i =>
      have hscopes := h i
      rw [searchUpTo, searchUpTo]
      generalize arena.scopes[i]? = scope, arena'.scopes[i]? = scope' at hscopes ⊢
      cases hscopes with
      | none => rfl
      | @some scope scope' hshape =>
        obtain ⟨hparent, htype, hfound⟩ := hshape
        simp only [hparent, htype]
        rcases hhere : found? i scope with _ | a
        · rw [hhere, Option.map_none, Option.map_eq_none_iff] at hfound
          simp only [hfound]
          split
          · rfl
          · exact ih scope.parent
        · rw [hhere, Option.map_some, Option.map_eq_some_iff] at hfound
          obtain ⟨b, hb, hsame⟩ := hfound
          simp only [hb, Except.map, Option.map_some, hsame]

end

/-! ## Scopes inside a region -/

/-- The scope `index` is open in the region that starts at the scope `base`. -/
structure Region (arena : Arena) (base index : Nat) : Prop where
  base_le : base ≤ index
  lt_size : index < arena.size
  /-- The region starts with the scope of a call. -/
  boundary : ∀ scope, arena.scopes[base]? = some scope → scope.returnType.isSome = true
  /-- Every other scope of the region is around a later one only. -/
  inside : ∀ i scope, base < i → arena.scopes[i]? = some scope →
    ∃ parent, scope.parent = some parent ∧ base ≤ parent ∧ parent < i

/-- A scope of a region is open. -/
theorem Region.exists_scope (h : arena.Region base index) :
    ∃ scope, arena.scopes[index]? = some scope :=
  ⟨_, Array.getElem?_eq_getElem h.lt_size⟩

/-- Outward from a scope that does not belong to a call there is another scope of the region. -/
theorem Region.outward (h : arena.Region base index) {scope : Scope}
    (hscope : arena.scopes[index]? = some scope) (hcall : scope.returnType.isSome = false) :
    ∃ parent, scope.parent = some parent ∧ arena.Region base parent := by
  have hne : base ≠ index := by
    rintro rfl
    rw [h.boundary scope hscope] at hcall
    cases hcall
  obtain ⟨parent, hparent, hle, hlt⟩ :=
    h.inside index scope (Nat.lt_of_le_of_ne h.base_le hne) hscope
  exact ⟨parent, hparent, hle, Nat.lt_trans hlt h.lt_size, h.boundary, h.inside⟩

/-- A search from inside a region ends there: it finds something in the region, or nothing. -/
theorem Region.searchUpTo_eq_ok {α : Type} (h : arena.Region base index)
    (found? : Nat → Scope → Option α) (fuel : Nat) :
    ∃ result, arena.searchUpTo found? fuel (some index) = .ok result ∧
      ∀ a, result = some a → ∃ i scope, base ≤ i ∧ found? i scope = some a := by
  induction fuel generalizing index with
  | zero => exact ⟨none, rfl, nofun⟩
  | succ fuel ih =>
    obtain ⟨scope, hscope⟩ := h.exists_scope
    simp only [searchUpTo, hscope]
    cases hfound : found? index scope with
    | some a =>
      refine ⟨some a, rfl, fun a' ha => ?_⟩
      exact ⟨index, scope, h.base_le, hfound.trans ha⟩
    | none =>
      by_cases hcall : scope.returnType.isSome = true
      · simp only [hcall, if_true]
        exact ⟨none, rfl, nofun⟩
      · obtain ⟨parent, hparent, hregion⟩ := h.outward hscope (Bool.eq_false_iff.2 hcall)
        simp only [hcall, hparent]
        exact ih hregion

theorem Region.search_eq_ok {α : Type} (h : arena.Region base index)
    (found? : Nat → Scope → Option α) :
    ∃ result, arena.search found? (some index) = .ok result ∧
      ∀ a, result = some a → ∃ i scope, base ≤ i ∧ found? i scope = some a :=
  h.searchUpTo_eq_ok found? _

/-- What a name means inside a region is a variable of the region. -/
theorem Region.resolve_eq_ok (h : arena.Region base index) (name : String) :
    ∃ result, arena.resolve (some index) name = .ok result ∧
      ∀ i entry, result = some (i, entry) → base ≤ i := by
  obtain ⟨result, hresult, hfound⟩ := h.search_eq_ok fun i scope =>
    (scope.find? name).map fun entry => (i, entry)
  refine ⟨result, hresult, ?_⟩
  rintro i entry rfl
  obtain ⟨j, scope, hle, hj⟩ := hfound _ rfl
  obtain ⟨entry', -, heq⟩ := Option.map_eq_some_iff.1 hj
  obtain ⟨rfl, -⟩ := Prod.mk.inj heq
  exact hle

/-! ## Changes inside a region -/

/-- Variables changed in the scopes from `base` on, and nothing else. -/
structure Edits (base : Nat) (before after : Arena) : Prop where
  size_eq : after.size = before.size
  below : ∀ i < base, after.scopes[i]? = before.scopes[i]?
  /-- Scopes keep their parents and what is to be returned. -/
  shape : ∀ (i : Nat) (scope' : Scope), after.scopes[i]? = some scope' → ∃ scope : Scope,
    before.scopes[i]? = some scope ∧ scope'.parent = scope.parent ∧
      scope'.returnType = scope.returnType

namespace Edits

theorem refl (base : Nat) (arena : Arena) : Edits base arena arena :=
  ⟨rfl, fun _ _ => rfl, fun _ scope h => ⟨scope, h, rfl, rfl⟩⟩

theorem trans (h : Edits base arena arena') (h' : Edits base arena' arena'') :
    Edits base arena arena'' := by
  refine ⟨h'.size_eq.trans h.size_eq, fun i hi => (h'.below i hi).trans (h.below i hi), ?_⟩
  intro i scope'' hscope
  obtain ⟨scope', hscope', hparent', htype'⟩ := h'.shape i scope'' hscope
  obtain ⟨scope, hscope, hparent, htype⟩ := h.shape i scope' hscope'
  exact ⟨scope, hscope, hparent'.trans hparent, htype'.trans htype⟩

/-- Changes above all scopes are none. -/
theorem eq_of_size_le (h : Edits base arena arena') (hsize : arena.size ≤ base) :
    arena' = arena := by
  have hscopes : arena'.scopes = arena.scopes := by
    apply Array.ext_getElem?
    intro i
    by_cases hi : i < base
    · exact h.below i hi
    · have hlarge : arena.size ≤ i := Nat.le_trans hsize (Nat.not_lt.1 hi)
      rw [Array.getElem?_eq_none hlarge,
        Array.getElem?_eq_none (Nat.le_trans (Nat.le_of_eq h.size_eq) hlarge)]
  obtain ⟨scopes⟩ := arena
  obtain ⟨scopes'⟩ := arena'
  exact congrArg Arena.mk hscopes

/-- A region stays one. -/
theorem region (h : Edits base arena arena') (hr : arena.Region base index) :
    arena'.Region base index := by
  refine ⟨hr.base_le, h.size_eq ▸ hr.lt_size, fun scope' hscope' => ?_,
    fun i scope' hi hscope' => ?_⟩
  · obtain ⟨scope, hscope, -, htype⟩ := h.shape base scope' hscope'
    rw [htype]
    exact hr.boundary scope hscope
  · obtain ⟨scope, hscope, hparent, -⟩ := h.shape i scope' hscope'
    rw [hparent]
    exact hr.inside i scope hi hscope

/-- Changing the variables of one scope. -/
theorem modify {f : Scope → Scope} (hle : base ≤ index)
    (hf : ∀ scope, (f scope).parent = scope.parent ∧ (f scope).returnType = scope.returnType) :
    Edits base arena ⟨arena.scopes.modify index f⟩ := by
  refine ⟨Array.size_modify, fun i hi => ?_, fun i scope' hscope' => ?_⟩
  · rw [Array.getElem?_modify, if_neg (by omega)]
  · rw [Array.getElem?_modify] at hscope'
    by_cases hi : index = i
    · rw [if_pos hi] at hscope'
      obtain ⟨scope, hscope, rfl⟩ := Option.map_eq_some_iff.1 hscope'
      exact ⟨scope, hscope, hf scope⟩
    · rw [if_neg hi] at hscope'
      exact ⟨scope', hscope', rfl, rfl⟩

end Edits

/-! ## Variables -/

theorem checkType_cases (value : Value) (expected : ValueType) (position : Position) :
    checkType value expected position = .ok () ∨
      ∃ cause, checkType value expected position = .error (.semantic position cause) := by
  by_cases h : value.type = expected
  · exact .inl (if_pos h)
  · exact .inr ⟨_, if_neg h⟩

/-- A declaration adds a new name to an open scope, with a value of its type. -/
theorem declare_eq_ok {start : Option Nat} {name : String} {value : Value} {type : ValueType}
    {position : Position} (h : arena.declare start name value type position = .ok arena') :
    ∃ i scope, start = some i ∧ arena.scopes[i]? = some scope ∧ scope.find? name = none ∧
      value.type = type ∧
      arena' = ⟨arena.scopes.modify i (·.insert name { value, type, position })⟩ := by
  rcases start with _ | i
  · cases h
  simp only [declare] at h
  rcases hscope : arena.scopes[i]? with _ | scope
  · simp only [hscope] at h
    cases h
  simp only [hscope] at h
  rcases hfind : scope.find? name with _ | earlier
  · simp only [hfind, checkType] at h
    by_cases htype : value.type = type
    · rw [if_pos htype] at h
      exact ⟨i, scope, rfl, hscope, hfind, htype, (Except.ok.inj h).symm⟩
    · rw [if_neg htype] at h
      cases h
  · simp only [hfind] at h
    cases h

/-- An assignment changes the variable that its name means, to a value of its type. -/
theorem assign_eq_ok {start : Option Nat} {name : String} {value : Value} {position : Position}
    (h : arena.assign start name value position = .ok arena') :
    ∃ i entry, arena.resolve start name = .ok (some (i, entry)) ∧ value.type = entry.type ∧
      arena' = ⟨arena.scopes.modify i (·.update name value)⟩ := by
  simp only [assign] at h
  rcases hresolve : arena.resolve start name with fault | _ | ⟨i, entry⟩
  · rw [hresolve] at h
    cases h
  · rw [hresolve] at h
    cases h
  · simp only [hresolve, bind, Except.bind, checkType] at h
    by_cases htype : value.type = entry.type
    · rw [if_pos htype] at h
      exact ⟨i, entry, rfl, htype, (Except.ok.inj h).symm⟩
    · rw [if_neg htype] at h
      cases h

section
variable (h : arena.Region base index) (name : String) (position : Position)
include h

/-- Reading a variable inside a region: its value, or an error of the program. -/
theorem Region.valueOf_cases :
    (∃ value, arena.valueOf (some index) name position = .ok value) ∨
      ∃ cause, arena.valueOf (some index) name position = .error (.semantic position cause) := by
  obtain ⟨result, hresult, -⟩ := h.resolve_eq_ok name
  simp only [valueOf, lookup, hresult]
  cases result with
  | none => exact .inr ⟨_, rfl⟩
  | some found => exact .inl ⟨_, rfl⟩

/-- Declaring a variable inside a region: it is added there, or that is an error of the program. -/
theorem Region.declare_cases (value : Value) (type : ValueType) :
    (∃ declared, arena.declare (some index) name value type position = .ok declared ∧
      Edits base arena declared) ∨
      ∃ cause,
        arena.declare (some index) name value type position =
          .error (.semantic position cause) := by
  obtain ⟨scope, hscope⟩ := h.exists_scope
  simp only [declare, hscope]
  cases scope.find? name with
  | some earlier => exact .inr ⟨_, rfl⟩
  | none =>
    rcases checkType_cases value type position with hok | ⟨cause, herror⟩
    · rw [hok]
      exact .inl ⟨_, rfl, .modify h.base_le fun _ => ⟨rfl, rfl⟩⟩
    · rw [herror]
      exact .inr ⟨cause, rfl⟩

/-- Assigning inside a region: a variable of the region changes, or that is an error of the
program. -/
theorem Region.assign_cases (value : Value) :
    (∃ assigned, arena.assign (some index) name value position = .ok assigned ∧
      Edits base arena assigned) ∨
      ∃ cause,
        arena.assign (some index) name value position = .error (.semantic position cause) := by
  obtain ⟨result, hresult, hle⟩ := h.resolve_eq_ok name
  simp only [assign, hresult]
  cases result with
  | none => exact .inr ⟨_, rfl⟩
  | some found =>
    obtain ⟨i, entry⟩ := found
    rcases checkType_cases value entry.type position with hok | ⟨cause, herror⟩
    · have hedits : Edits base arena ⟨arena.scopes.modify i (·.update name value)⟩ :=
        .modify (hle i entry rfl) fun _ => ⟨rfl, rfl⟩
      refine .inl ⟨_, ?_, hedits⟩
      simp only [bind, Except.bind, hok]
      rfl
    · refine .inr ⟨cause, ?_⟩
      simp only [bind, Except.bind, herror]

end

theorem Region.returnTypeOf_eq_ok (h : arena.Region base index) :
    ∃ type, arena.returnTypeOf (some index) = .ok type := by
  obtain ⟨result, hresult, -⟩ := h.search_eq_ok fun _ scope => scope.returnType
  refine ⟨result.getD .void, ?_⟩
  rw [returnTypeOf, hresult]
  rfl

/-! ## Opening and closing -/

@[simp] theorem size_openScope {parent : Option Nat} {returnType : Option ValueType} :
    (arena.openScope parent returnType).size = arena.size + 1 :=
  Array.size_push _

theorem getElem?_openScope {parent : Option Nat} {returnType : Option ValueType} {i : Nat}
    {scope : Scope} (h : (arena.openScope parent returnType).scopes[i]? = some scope) :
    arena.scopes[i]? = some scope ∨ i = arena.size ∧ scope = ⟨parent, returnType, []⟩ := by
  rw [openScope, Array.getElem?_push] at h
  by_cases hi : i = arena.scopes.size
  · rw [if_pos hi] at h
    exact .inr ⟨hi, (Option.some.inj h).symm⟩
  · rw [if_neg hi] at h
    exact .inl h

/-- The scope of a call starts a region, whatever was open before. -/
theorem region_of_call (arena : Arena) (parent : Option Nat) (returnType : ValueType) :
    (arena.openScope parent (some returnType)).Region arena.size arena.size := by
  have hnew : ∀ i scope, arena.size ≤ i →
      (arena.openScope parent (some returnType)).scopes[i]? = some scope →
      i = arena.size ∧ scope = ⟨parent, some returnType, []⟩ := by
    intro i scope hi hscope
    refine (getElem?_openScope hscope).resolve_left fun hold => ?_
    rw [Array.getElem?_eq_none hi] at hold
    cases hold
  refine ⟨Nat.le_refl _, size_openScope ▸ Nat.lt_succ_self _, fun scope hscope => ?_,
    fun i scope hi hscope => ?_⟩
  · rw [(hnew _ scope (Nat.le_refl _) hscope).2]
    rfl
  · have heq := (hnew i scope (Nat.le_of_lt hi) hscope).1
    omega

/-- A scope inside one of a region belongs to the region. -/
theorem Region.openScope (h : arena.Region base index) :
    (arena.openScope (some index) none).Region base arena.size := by
  have hlt := Nat.lt_of_le_of_lt h.base_le h.lt_size
  refine ⟨Nat.le_of_lt hlt, size_openScope ▸ Nat.lt_succ_self _, fun scope hscope => ?_,
    fun i scope hi hscope => ?_⟩
  · rcases getElem?_openScope hscope with hold | ⟨heq, -⟩
    · exact h.boundary scope hold
    · omega
  · rcases getElem?_openScope hscope with hold | ⟨rfl, rfl⟩
    · exact h.inside i scope hi hold
    · exact ⟨index, rfl, h.base_le, h.lt_size⟩

/-- What was opened last is closed again, and the changes inside the region are all that is left. -/
theorem Edits.close_openScope {parent : Option Nat} {returnType : Option ValueType}
    (h : Edits base (arena.openScope parent returnType) arena') :
    ∃ closed, arena'.close arena.size = .ok closed ∧ Edits base arena closed := by
  have hsize : arena'.size = arena.size + 1 := h.size_eq.trans size_openScope
  have hold : ∀ i < arena.size,
      (arena.openScope parent returnType).scopes[i]? = arena.scopes[i]? := fun i hi => by
    rw [Arena.openScope, Array.getElem?_push]
    exact if_neg (Nat.ne_of_lt hi)
  have hclosed : ∀ i < arena.size,
      (arena'.scopes.take arena.size)[i]? = arena'.scopes[i]? := fun i hi => by
    rw [Array.take_eq_extract, Array.getElem?_extract, if_pos (by simp only [size] at *; omega),
      Nat.zero_add]
  have hsize' : (⟨arena'.scopes.take arena.size⟩ : Arena).size = arena.size := by
    rw [size, Array.take_eq_extract, Array.size_extract]
    simp only [size] at *
    omega
  refine ⟨⟨arena'.scopes.take arena.size⟩, if_pos (by omega), hsize', fun i hi => ?_,
    fun i scope hscope => ?_⟩
  · by_cases hlt : i < arena.size
    · exact (hclosed i hlt).trans ((h.below i hi).trans (hold i hlt))
    · rw [Array.getElem?_eq_none (Nat.not_lt.1 hlt),
        Array.getElem?_eq_none (Nat.le_trans (Nat.le_of_eq hsize') (Nat.not_lt.1 hlt))]
  · have hlt : i < arena.size := hsize' ▸ (Array.getElem?_eq_some_iff.1 hscope).1
    rw [hclosed i hlt] at hscope
    obtain ⟨opened, hopened, hshape⟩ := h.shape i scope hscope
    exact ⟨opened, hold i hlt ▸ hopened, hshape⟩

end FLang.Arena
