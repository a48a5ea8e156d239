import FLang.Proofs.Scopes.Region

/-!
# Parallel regions

The same call can be made in two arenas, with other scopes below it. Its region then starts at
different indices, but what lies at the same distance from the start is the same.

* `Scope.Mirrors` — two scopes at the same distance from the start of their regions: they hold the
  same variables and return the same, and so are their parents at the same distance;
* `Arena.Parallel` — two regions, scope by scope;
* `Parallel.search` — searches from the same distance find the same, so names and return types mean
  the same in both (`valueOf_eq`, `returnTypeOf_eq`);
* `Parallel.declare`, `Parallel.assign`, `Parallel.openScope`, `Parallel.close` — and the regions
  stay parallel.

Nothing is said of the parent of the first scope: it is the scope of the caller.
-/

namespace FLang

/-- Scopes at the distance `i` from the starts of two regions. -/
structure Scope.Mirrors (base base' i : Nat) (scope scope' : Scope) : Prop where
  returnType : scope'.returnType = scope.returnType
  bindings : scope'.bindings = scope.bindings
  boundary : i = 0 → scope.returnType.isSome = true
  parent : 0 < i → ∃ p < i, scope.parent = some (base + p) ∧ scope'.parent = some (base' + p)

/-- Two regions of `count` scopes that are the same at each distance from their starts. -/
structure Arena.Parallel (base base' count : Nat) (arena arena' : Arena) : Prop where
  size : arena.size = base + count
  size' : arena'.size = base' + count
  scopes : ∀ i < count, ∃ scope scope' : Scope, arena.scopes[base + i]? = some scope ∧
    arena'.scopes[base' + i]? = some scope' ∧ scope.Mirrors base base' i scope'

namespace Arena.Parallel

variable {base base' count i : Nat} {arena arena' : Arena}

/-! ## Searching -/

/-- Searches that agree on mirrored scopes find the same from scopes at the same distance, if they
may go on for long enough. -/
theorem searchUpTo {α α' : Type} (h : arena.Parallel base base' count arena')
    {found? : Nat → Scope → Option α} {found?' : Nat → Scope → Option α'} {r : α → α' → Prop}
    (hfound : ∀ j scope scope', Scope.Mirrors base base' j scope scope' →
      Option.Rel r (found? (base + j) scope) (found?' (base' + j) scope'))
    (hi : i < count) {fuel fuel' : Nat} (hfuel : i < fuel) (hfuel' : i < fuel') :
    ∃ result result', arena.searchUpTo found? fuel (some (base + i)) = .ok result ∧
      arena'.searchUpTo found?' fuel' (some (base' + i)) = .ok result' ∧
      Option.Rel r result result' := by
  -- by induction on the distance, which gets smaller on the way outward
  induction i using Nat.strongRecOn generalizing fuel fuel' with
  | ind i ih =>
    obtain ⟨fuel, rfl⟩ := Nat.exists_eq_succ_of_ne_zero (Nat.ne_zero_of_lt hfuel)
    obtain ⟨fuel', rfl⟩ := Nat.exists_eq_succ_of_ne_zero (Nat.ne_zero_of_lt hfuel')
    obtain ⟨scope, scope', hscope, hscope', hmirrors⟩ := h.scopes i hi
    simp only [Arena.searchUpTo, hscope, hscope', hmirrors.returnType]
    have hrel := hfound i scope scope' hmirrors
    rcases hf : found? (base + i) scope with _ | a <;>
      rcases hf' : found?' (base' + i) scope' with _ | a' <;> rw [hf, hf'] at hrel
    · by_cases hcall : scope.returnType.isSome = true
      · simp only [hcall, if_true]
        exact ⟨none, none, rfl, rfl, .none⟩
      · have hpos : 0 < i := Nat.pos_of_ne_zero fun hzero => hcall (hmirrors.boundary hzero)
        obtain ⟨p, hp, hparent, hparent'⟩ := hmirrors.parent hpos
        simp only [hcall, hparent, hparent']
        exact ih p hp (by omega) (by omega) (by omega)
    · cases hrel
    · cases hrel
    · exact ⟨some a, some a', rfl, rfl, hrel⟩

theorem search {α α' : Type} (h : arena.Parallel base base' count arena')
    {found? : Nat → Scope → Option α} {found?' : Nat → Scope → Option α'} {r : α → α' → Prop}
    (hfound : ∀ j scope scope', Scope.Mirrors base base' j scope scope' →
      Option.Rel r (found? (base + j) scope) (found?' (base' + j) scope')) (hi : i < count) :
    ∃ result result', arena.search found? (some (base + i)) = .ok result ∧
      arena'.search found?' (some (base' + i)) = .ok result' ∧ Option.Rel r result result' := by
  have hsize := h.size
  have hsize' := h.size'
  exact h.searchUpTo hfound hi (by omega) (by omega)

/-- The same variable at two indices with the same distance. -/
def SameEntry (base base' : Nat) (found found' : Nat × Variable) : Prop :=
  ∃ j, found.1 = base + j ∧ found'.1 = base' + j ∧ found'.2 = found.2

/-- A name means the same variable. -/
theorem resolve (h : arena.Parallel base base' count arena') (hi : i < count) (name : String) :
    ∃ result result', arena.resolve (some (base + i)) name = .ok result ∧
      arena'.resolve (some (base' + i)) name = .ok result' ∧
      Option.Rel (SameEntry base base') result result' := by
  refine h.search (fun j scope scope' hmirrors => ?_) hi
  simp only [Scope.find?, hmirrors.bindings]
  rcases scope.bindings.lookup name with _ | entry
  · exact .none
  · exact .some ⟨j, rfl, rfl, rfl⟩

theorem valueOf_eq (h : arena.Parallel base base' count arena') (hi : i < count) (name : String)
    (position : Position) :
    arena'.valueOf (some (base' + i)) name position =
      arena.valueOf (some (base + i)) name position := by
  obtain ⟨result, result', hresult, hresult', hrel⟩ := h.resolve hi name
  simp only [valueOf, lookup, hresult, hresult']
  rcases hrel with ⟨j, -, -, hentry⟩ | _
  · simp only [Except.map, Option.map, hentry]
  · rfl

theorem returnTypeOf_eq (h : arena.Parallel base base' count arena') (hi : i < count) :
    arena'.returnTypeOf (some (base' + i)) = arena.returnTypeOf (some (base + i)) := by
  have hsearch : ∃ result result',
      arena.search (fun _ scope => scope.returnType) (some (base + i)) = .ok result ∧
      arena'.search (fun _ scope => scope.returnType) (some (base' + i)) = .ok result' ∧
      Option.Rel Eq result result' := by
    refine h.search (fun j scope scope' hmirrors => ?_) hi
    rw [hmirrors.returnType]
    rcases scope.returnType with _ | type
    · exact .none
    · exact .some rfl
  obtain ⟨result, result', hresult, hresult', hrel⟩ := hsearch
  rw [returnTypeOf, returnTypeOf, hresult, hresult']
  rcases hrel with heq | _
  · rw [heq]
  · rfl

/-! ## Changing variables -/

/-- Changing the variables of mirrored scopes in the same way. -/
theorem modify (h : arena.Parallel base base' count arena') (j : Nat) {f : Scope → Scope}
    (hshape : ∀ scope, (f scope).parent = scope.parent ∧ (f scope).returnType = scope.returnType)
    (hbindings : ∀ scope scope', scope'.bindings = scope.bindings →
      (f scope').bindings = (f scope).bindings) :
    Parallel base base' count ⟨arena.scopes.modify (base + j) f⟩
      ⟨arena'.scopes.modify (base' + j) f⟩ := by
  refine ⟨Array.size_modify.trans h.size, Array.size_modify.trans h.size', fun k hk => ?_⟩
  obtain ⟨scope, scope', hscope, hscope', hmirrors⟩ := h.scopes k hk
  by_cases hjk : j = k
  · subst hjk
    refine ⟨f scope, f scope', ?_, ?_, ?_, hbindings _ _ hmirrors.bindings, ?_, ?_⟩
    · rw [Array.getElem?_modify, if_pos rfl, hscope, Option.map_some]
    · rw [Array.getElem?_modify, if_pos rfl, hscope', Option.map_some]
    · rw [(hshape scope).2, (hshape scope').2, hmirrors.returnType]
    · rw [(hshape scope).2]
      exact hmirrors.boundary
    · rw [(hshape scope).1, (hshape scope').1]
      exact hmirrors.parent
  · refine ⟨scope, scope', ?_, ?_, hmirrors⟩
    · rw [Array.getElem?_modify, if_neg (by omega), hscope]
    · rw [Array.getElem?_modify, if_neg (by omega), hscope']

/-- Two changes of parallel regions: both are made and the regions stay parallel, or both fail for
the same reason. -/
def BothChange (base base' count : Nat) (result result' : Except Fault Arena) : Prop :=
  (∃ changed changed', result = .ok changed ∧ result' = .ok changed' ∧
    Parallel base base' count changed changed') ∨
  ∃ fault, result = .error fault ∧ result' = .error fault

theorem declare (h : arena.Parallel base base' count arena') (hi : i < count) (name : String)
    (value : Value) (type : ValueType) (position : Position) :
    BothChange base base' count (arena.declare (some (base + i)) name value type position)
      (arena'.declare (some (base' + i)) name value type position) := by
  obtain ⟨scope, scope', hscope, hscope', hmirrors⟩ := h.scopes i hi
  have hfind : scope'.find? name = scope.find? name := by
    rw [Scope.find?, Scope.find?, hmirrors.bindings]
  simp only [Arena.declare, hscope, hscope', hfind]
  rcases scope.find? name with _ | earlier
  · rcases checkType_cases value type position with hok | ⟨cause, herror⟩
    · rw [hok]
      refine .inl ⟨_, _, rfl, rfl, h.modify i (fun _ => ⟨rfl, rfl⟩) fun s s' hbindings => ?_⟩
      simp only [Scope.insert, hbindings]
    · rw [herror]
      exact .inr ⟨_, rfl, rfl⟩
  · exact .inr ⟨_, rfl, rfl⟩

theorem assign (h : arena.Parallel base base' count arena') (hi : i < count) (name : String)
    (value : Value) (position : Position) :
    BothChange base base' count (arena.assign (some (base + i)) name value position)
      (arena'.assign (some (base' + i)) name value position) := by
  obtain ⟨result, result', hresult, hresult', hrel⟩ := h.resolve hi name
  simp only [Arena.assign, hresult, hresult']
  rcases hrel with @⟨⟨index, entry⟩, ⟨index', entry'⟩, j, hindex, hindex', hentry⟩ | _
  · simp only at hindex hindex' hentry
    subst hindex hindex' hentry
    rcases checkType_cases value entry'.type position with hok | ⟨cause, herror⟩
    · simp only [bind, Except.bind, hok]
      refine .inl ⟨_, _, rfl, rfl, h.modify j (fun _ => ⟨rfl, rfl⟩) fun s s' hbindings => ?_⟩
      simp only [Scope.update, hbindings]
    · simp only [bind, Except.bind, herror]
      exact .inr ⟨_, rfl, rfl⟩
  · exact .inr ⟨_, rfl, rfl⟩

/-! ## Opening and closing -/

/-- The scopes of two calls of one function start parallel regions, whatever was open before. -/
theorem of_call (arena arena' : Arena) (parent parent' : Option Nat) (returnType : ValueType) :
    Parallel arena.size arena'.size 1 (arena.openScope parent (some returnType))
      (arena'.openScope parent' (some returnType)) := by
  refine ⟨size_openScope, size_openScope, fun i hi => ?_⟩
  obtain rfl : i = 0 := by omega
  have hmirrors : Scope.Mirrors arena.size arena'.size 0 ⟨parent, some returnType, []⟩
      ⟨parent', some returnType, []⟩ :=
    ⟨rfl, rfl, fun _ => rfl, fun hpos => absurd hpos (Nat.lt_irrefl 0)⟩
  exact ⟨_, _, Array.getElem?_push_size, Array.getElem?_push_size, hmirrors⟩

/-- New scopes inside mirrored ones. -/
theorem openScope (h : arena.Parallel base base' count arena') (hi : i < count) :
    Parallel base base' (count + 1) (arena.openScope (some (base + i)) none)
      (arena'.openScope (some (base' + i)) none) := by
  have hsize : arena.scopes.size = base + count := h.size
  have hsize' : arena'.scopes.size = base' + count := h.size'
  refine ⟨size_openScope.trans (congrArg (· + 1) h.size),
    size_openScope.trans (congrArg (· + 1) h.size'), fun k hk => ?_⟩
  by_cases hnew : k = count
  · subst hnew
    have hmirrors : Scope.Mirrors base base' k ⟨some (base + i), none, []⟩
        ⟨some (base' + i), none, []⟩ :=
      ⟨rfl, rfl, fun hzero => by omega, fun _ => ⟨i, hi, rfl, rfl⟩⟩
    refine ⟨_, _, ?_, ?_, hmirrors⟩
    · rw [Arena.openScope, Array.getElem?_push, if_pos hsize.symm]
    · rw [Arena.openScope, Array.getElem?_push, if_pos hsize'.symm]
  · obtain ⟨scope, scope', hscope, hscope', hmirrors⟩ := h.scopes k (by omega)
    refine ⟨scope, scope', ?_, ?_, hmirrors⟩
    · rw [Arena.openScope, Array.getElem?_push, if_neg (by omega), hscope]
    · rw [Arena.openScope, Array.getElem?_push, if_neg (by omega), hscope']

/-- Closing the last scope of each region. -/
theorem close (h : arena.Parallel base base' (count + 1) arena') :
    Parallel base base' count ⟨arena.scopes.take (base + count)⟩
      ⟨arena'.scopes.take (base' + count)⟩ := by
  have hsize : arena.scopes.size = base + (count + 1) := h.size
  have hsize' : arena'.scopes.size = base' + (count + 1) := h.size'
  refine ⟨?_, ?_, fun k hk => ?_⟩
  · simp only [Arena.size, Array.take_eq_extract, Array.size_extract]
    omega
  · simp only [Arena.size, Array.take_eq_extract, Array.size_extract]
    omega
  · obtain ⟨scope, scope', hscope, hscope', hmirrors⟩ := h.scopes k (by omega)
    refine ⟨scope, scope', ?_, ?_, hmirrors⟩
    · rw [Array.take_eq_extract, Array.getElem?_extract, if_pos (by omega), Nat.zero_add, hscope]
    · rw [Array.take_eq_extract, Array.getElem?_extract, if_pos (by omega), Nat.zero_add, hscope']

end Arena.Parallel

end FLang
