import FLang.Proofs.Scopes.Region

/-!
# Outlines of scopes

The outline of a scope is all of it but the values of its variables: its parent, what its call
returns, and the names that it declares, with their types and where they were declared.

* `Arena.outline` — the outlines of the open scopes. An assignment leaves them as they are
  (`outline_assign`), and a declaration adds its own name to the current one (`outline_declare`);
* `outline_close` — what is done to a scope that was opened last is gone with it;
* `Sees` — the names in sight from a scope, up to the scope of the call;
* `Sees.lookup` — a name means the nearest of them.
-/

namespace FLang

/-- A name in a scope: its type and where it was declared. -/
structure Scope.Entry where
  name : String
  type : ValueType
  position : Position
deriving DecidableEq

/-- A scope without the values of its variables. -/
structure Scope.Outline where
  parent : Option Nat
  returnType : Option ValueType
  /-- The names that it declares, the last one first. -/
  entries : List Scope.Entry
deriving DecidableEq

/-- The outline of a scope. -/
def Scope.outline (scope : Scope) : Scope.Outline where
  parent := scope.parent
  returnType := scope.returnType
  entries := scope.bindings.map fun binding => ⟨binding.1, binding.2.type, binding.2.position⟩

/-- The outline of the scope of an index, if it is open. -/
def Arena.outline (arena : Arena) (i : Nat) : Option Scope.Outline :=
  arena.scopes[i]?.map Scope.outline

/-- Outlines of scopes, after some names were declared in the scope of an index. -/
def extendAt (start : Option Nat) (more : List Scope.Entry)
    (outlines : Nat → Option Scope.Outline) : Nat → Option Scope.Outline := fun i =>
  if start = some i then
    (outlines i).map fun outline => { outline with entries := more ++ outline.entries }
  else outlines i

section
variable {start : Option Nat} {outlines : Nat → Option Scope.Outline}

@[simp] theorem extendAt_nil : extendAt start [] outlines = outlines := by
  funext i
  unfold extendAt
  split
  · cases outlines i <;> rfl
  · rfl

@[simp] theorem extendAt_extendAt (more more' : List Scope.Entry) :
    extendAt start more' (extendAt start more outlines) =
      extendAt start (more' ++ more) outlines := by
  funext i
  unfold extendAt
  by_cases hi : start = some i
  · simp only [if_pos hi, Option.map_map, Function.comp_def, List.append_assoc]
  · simp only [if_neg hi]

theorem extendAt_of_ne {more : List Scope.Entry} {i : Nat} (h : start ≠ some i) :
    extendAt start more outlines i = outlines i :=
  if_neg h

@[simp] theorem extendAt_self {more : List Scope.Entry} {i : Nat} :
    extendAt (some i) more outlines i =
      (outlines i).map fun outline => { outline with entries := more ++ outline.entries } :=
  if_pos rfl

theorem extendAt_of_eq {more : List Scope.Entry} {i : Nat} {outline : Scope.Outline}
    (h : outlines i = some outline) :
    extendAt (some i) more outlines i =
      some { outline with entries := more ++ outline.entries } := by
  rw [extendAt_self, h]
  rfl

end

namespace Arena

variable {arena arena' : Arena}

@[simp] theorem outline_eq_none {i : Nat} : arena.outline i = none ↔ arena.size ≤ i := by
  simp [outline, size]

theorem lt_size_of_outline {i : Nat} {outline : Scope.Outline}
    (h : arena.outline i = some outline) : i < arena.size := by
  refine Nat.lt_of_not_le fun hle => ?_
  rw [outline_eq_none.2 hle] at h
  cases h

theorem exists_of_outline {i : Nat} {outline : Scope.Outline} (h : arena.outline i = some outline) :
    ∃ scope, arena.scopes[i]? = some scope ∧ scope.outline = outline :=
  Option.map_eq_some_iff.1 h

/-- A changed value does not show. -/
@[simp] theorem outline_update (scope : Scope) (name : String) (value : Value) :
    (scope.update name value).outline = scope.outline := by
  unfold Scope.outline Scope.update
  simp only [List.map_map, Scope.Outline.mk.injEq, true_and]
  refine List.map_congr_left fun binding _ => ?_
  simp only [Function.comp_apply]
  split <;> rfl

theorem outline_modify {i : Nat} {f : Scope → Scope}
    (hf : ∀ scope, (f scope).outline = scope.outline) :
    (⟨arena.scopes.modify i f⟩ : Arena).outline = arena.outline := by
  funext j
  rw [outline, outline, Array.getElem?_modify]
  split
  · rw [Option.map_map]
    exact congrArg (arena.scopes[j]?.map ·) (funext hf)
  · rfl

/-- An assignment leaves the outlines as they are. -/
theorem outline_assign {start : Option Nat} {name : String} {value : Value} {position : Position}
    (h : arena.assign start name value position = .ok arena') : arena'.outline = arena.outline := by
  obtain ⟨i, entry, -, -, rfl⟩ := assign_eq_ok h
  exact outline_modify fun scope => outline_update scope name value

/-- A declaration adds its name to a scope that did not have it. -/
theorem outline_declare {start : Option Nat} {name : String} {value : Value} {type : ValueType}
    {position : Position} (h : arena.declare start name value type position = .ok arena') :
    arena'.outline = extendAt start [⟨name, type, position⟩] arena.outline ∧
      ∃ i outline, start = some i ∧ arena.outline i = some outline ∧
        name ∉ outline.entries.map Scope.Entry.name := by
  obtain ⟨i, scope, rfl, hscope, hfind, -, rfl⟩ := declare_eq_ok h
  refine ⟨?_, i, scope.outline, rfl, by rw [outline, hscope]; rfl, ?_⟩
  · funext j
    rw [outline, Array.getElem?_modify]
    by_cases hj : i = j
    · subst hj
      rw [if_pos rfl, extendAt_self, outline, hscope]
      rfl
    · rw [if_neg hj, extendAt_of_ne (by simpa using hj)]
      rfl
  · intro hmem
    simp only [Scope.outline, List.map_map, List.mem_map, Function.comp_apply] at hmem
    obtain ⟨binding, hbinding, rfl⟩ := hmem
    simpa using List.lookup_eq_none_iff.1 hfind binding hbinding

theorem outline_openScope (arena : Arena) (parent : Option Nat) (returnType : Option ValueType)
    (i : Nat) :
    (arena.openScope parent returnType).outline i =
      if i = arena.size then some ⟨parent, returnType, []⟩ else arena.outline i := by
  rw [outline, openScope, Array.getElem?_push]
  split
  · rw [if_pos (by assumption)]
    rfl
  · rw [if_neg (by assumption)]
    rfl

/-- Whatever names were declared in a scope that was opened last, closing it takes them away. -/
theorem outline_close {parent : Option Nat} {returnType : Option ValueType}
    {more : List Scope.Entry} (h : arena'.outline =
      extendAt (some arena.size) more (arena.openScope parent returnType).outline) :
    ∃ closed, arena'.close arena.size = .ok closed ∧ closed.outline = arena.outline := by
  have hopen : arena'.outline arena.size = some ⟨parent, returnType, more ++ []⟩ := by
    rw [h, extendAt_self, outline_openScope, if_pos rfl]
    rfl
  have hsize : arena.size < arena'.size := lt_size_of_outline hopen
  refine ⟨⟨arena'.scopes.take arena.size⟩, if_pos hsize, funext fun i => ?_⟩
  by_cases hi : i < arena.size
  · have hold : arena'.outline i = arena.outline i := by
      rw [h, extendAt_of_ne (by simpa using (Nat.ne_of_lt hi).symm), outline_openScope,
        if_neg (Nat.ne_of_lt hi)]
    rw [← hold, outline, outline, Array.take_eq_extract, Array.getElem?_extract,
      if_pos (by simp only [size] at *; omega), Nat.zero_add]
  · rw [outline_eq_none.2 (Nat.not_lt.1 hi), outline_eq_none]
    simp only [size, Array.take_eq_extract, Array.size_extract] at *
    omega

end Arena

/-! ## Names in sight -/

/-- The names in sight from a scope: those of each scope on the way outward, up to the scope of the
call. -/
inductive Sees (outlines : Nat → Option Scope.Outline) : Nat → List (List Scope.Entry) → Prop where
  | call {i : Nat} {outline : Scope.Outline} :
      outlines i = some outline → outline.returnType.isSome = true →
      Sees outlines i [outline.entries]
  | inner {i parent : Nat} {outline : Scope.Outline} {frames : List (List Scope.Entry)} :
      outlines i = some outline → outline.returnType = none → outline.parent = some parent →
      parent < i → Sees outlines parent frames → Sees outlines i (outline.entries :: frames)

namespace Sees

variable {outlines outlines' : Nat → Option Scope.Outline} {i : Nat}
  {frames : List (List Scope.Entry)}

/-- Only scopes up to the current one count. -/
theorem congr (h : Sees outlines i frames) (heq : ∀ j ≤ i, outlines' j = outlines j) :
    Sees outlines' i frames := by
  induction h with
  | call houtline hcall => exact .call ((heq _ (Nat.le_refl _)).trans houtline) hcall
  | inner houtline hnone hparent hlt _ ih =>
    refine .inner ((heq _ (Nat.le_refl _)).trans houtline) hnone hparent hlt ?_
    exact ih fun j hj => heq j (Nat.le_of_lt (Nat.lt_of_le_of_lt hj hlt))

/-- The current scope is open, and its names are the nearest. -/
theorem exists_outline (h : Sees outlines i frames) :
    ∃ outline outer, outlines i = some outline ∧ frames = outline.entries :: outer := by
  cases h with
  | call houtline _ => exact ⟨_, [], houtline, rfl⟩
  | inner houtline _ _ _ _ => exact ⟨_, _, houtline, rfl⟩

/-- Names declared in the current scope are in sight. -/
theorem extend {frame : List Scope.Entry} (h : Sees outlines i (frame :: frames))
    (more : List Scope.Entry) :
    Sees (extendAt (some i) more outlines) i ((more ++ frame) :: frames) := by
  generalize hall : frame :: frames = all at h
  cases h with
  | call houtline hcall =>
    obtain ⟨rfl, rfl⟩ := List.cons.inj hall
    exact .call (extendAt_of_eq houtline) hcall
  | inner houtline hnone hparent hlt houter =>
    obtain ⟨rfl, rfl⟩ := List.cons.inj hall
    refine .inner (extendAt_of_eq houtline) hnone hparent hlt (houter.congr fun j hj => ?_)
    exact extendAt_of_ne (by simpa using (Nat.ne_of_lt (Nat.lt_of_le_of_lt hj hlt)).symm)

/-- A scope inside the current one sees what is seen from there, and no names of its own yet. -/
theorem openScope {arena : Arena} (h : Sees arena.outline i frames) :
    Sees (arena.openScope (some i) none).outline arena.size ([] :: frames) := by
  obtain ⟨outline, -, houtline, -⟩ := h.exists_outline
  have hlt := Arena.lt_size_of_outline houtline
  have hnew : (arena.openScope (some i) none).outline arena.size = some ⟨some i, none, []⟩ := by
    rw [Arena.outline_openScope, if_pos rfl]
  refine .inner hnew rfl rfl hlt (h.congr fun j hj => ?_)
  rw [Arena.outline_openScope, if_neg (by omega)]

/-- The scope of a call sees nothing of its caller. -/
theorem of_call (arena : Arena) (parent : Option Nat) (returnType : ValueType) :
    Sees (arena.openScope parent (some returnType)).outline arena.size [[]] := by
  have hnew : (arena.openScope parent (some returnType)).outline arena.size =
      some ⟨parent, some returnType, []⟩ := by
    rw [Arena.outline_openScope, if_pos rfl]
  exact .call hnew rfl

/-- The entry that a name means in some frames: the nearest of this name. -/
def nearest (frames : List (List Scope.Entry)) (name : String) : Option Scope.Entry :=
  frames.findSome? fun frame => frame.find? fun entry => entry.name = name

end Sees

/-- A scope finds what its outline shows. -/
theorem Scope.find?_outline (scope : Scope) (name : String) :
    (scope.find? name).map (fun entry => (⟨name, entry.type, entry.position⟩ : Scope.Entry)) =
      scope.outline.entries.find? fun entry => entry.name = name := by
  obtain ⟨parent, returnType, bindings⟩ := scope
  simp only [Scope.find?, Scope.outline]
  induction bindings with
  | nil => rfl
  | cons binding bindings ih =>
    obtain ⟨key, entry⟩ := binding
    simp only [List.lookup_cons, List.map_cons, List.find?_cons]
    by_cases hkey : key = name
    · subst hkey
      simp
    · have hne : (name == key) = false := by simpa using Ne.symm hkey
      simp only [hne, hkey, decide_false]
      exact ih

/-- A search from a scope finds the nearest variable of a name in sight. -/
theorem Sees.searchUpTo {arena : Arena} {i : Nat} {frames : List (List Scope.Entry)}
    (h : Sees arena.outline i frames) (name : String) {fuel : Nat} (hfuel : i < fuel) :
    ∃ found,
      arena.searchUpTo (fun index scope => (scope.find? name).map fun entry => (index, entry))
        fuel (some i) = .ok found ∧
      found.map (fun entry => (⟨name, entry.2.type, entry.2.position⟩ : Scope.Entry)) =
        Sees.nearest frames name := by
  induction h generalizing fuel with
  | @call i outline houtline hcall =>
    obtain ⟨fuel, rfl⟩ := Nat.exists_eq_succ_of_ne_zero (Nat.ne_zero_of_lt hfuel)
    obtain ⟨scope, hscope, rfl⟩ := Arena.exists_of_outline houtline
    have hcall : scope.returnType.isSome = true := hcall
    have hfind := scope.find?_outline name
    simp only [Arena.searchUpTo, hscope, hcall, if_true, nearest, List.findSome?_cons, ← hfind]
    cases scope.find? name with
    | none => exact ⟨none, rfl, rfl⟩
    | some entry => exact ⟨some (i, entry), rfl, rfl⟩
  | @inner i parent outline frames houtline hnone hparent hlt _ ih =>
    obtain ⟨fuel, rfl⟩ := Nat.exists_eq_succ_of_ne_zero (Nat.ne_zero_of_lt hfuel)
    obtain ⟨scope, hscope, rfl⟩ := Arena.exists_of_outline houtline
    have hnone : scope.returnType = none := hnone
    have hparent : scope.parent = some parent := hparent
    have hfind := scope.find?_outline name
    simp only [Arena.searchUpTo, hscope, hnone, hparent, nearest, List.findSome?_cons, ← hfind]
    cases scope.find? name with
    | none => exact ih (Nat.lt_of_lt_of_le hlt (Nat.le_of_lt_succ hfuel))
    | some entry => exact ⟨some (i, entry), rfl, rfl⟩

/-- **A name means the nearest variable of this name in sight.** -/
theorem Sees.lookup {arena : Arena} {i : Nat} {frames : List (List Scope.Entry)}
    (h : Sees arena.outline i frames) (name : String) :
    ∃ found, arena.lookup (some i) name = .ok found ∧
      found.map (fun entry => (⟨name, entry.type, entry.position⟩ : Scope.Entry)) =
        Sees.nearest frames name := by
  obtain ⟨outline, -, houtline, -⟩ := h.exists_outline
  have hsize := Arena.lt_size_of_outline houtline
  obtain ⟨found, hfound, hnearest⟩ := h.searchUpTo name (Nat.lt_succ_of_lt hsize)
  refine ⟨found.map Prod.snd, ?_, ?_⟩
  · rw [Arena.lookup, Arena.resolve, Arena.search, hfound]
    rfl
  · rw [← hnearest, Option.map_map]
    rfl

end FLang
