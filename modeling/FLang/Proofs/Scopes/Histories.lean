import FLang.Proofs.Naming.Outlines
import FLang.Proofs.Scopes.Types

/-!
# Everything that can be done to scopes

Scopes are opened, and closed together with all later ones, so that an index is used again by the
next scope that is opened. Variables are declared, assigned and read. Any of this may be refused,
and it may be asked in any order; a scope only has to be opened inside one that is open.

* `Arena.serve` — what a request does: it changes an arena in one of four ways (`Arena.Changes`) or
  not at all. `Arena.serveAll` is what a history of requests leads to;
* `Arena.Ordered` — a scope is inside an earlier one. Every change keeps that, and also that
  variables have values of their types;
* `Arena.Path` — the scopes on the way outward, as far as names are looked up. Between ordered
  scopes the way goes to ever smaller indices, so it has an end (`Ordered.exists_path`);
* `Path.searchUpTo_eq` — a search finds what the nearest scope on the way has to offer;
* `arena_histories` — what is therefore so after every history.
-/

namespace FLang

/-- The value of a variable has its type. That may be the type of no value. -/
def Variable.Typed (entry : Variable) : Prop :=
  entry.value.type = entry.type

/-- In a scope, an assignment changes the variable of its name and no other one. -/
theorem Scope.find?_update (scope : Scope) (name key : String) (value : Value) :
    (scope.update name value).find? key =
      if key = name then (scope.find? name).map fun entry => { entry with value }
      else scope.find? key := by
  obtain ⟨parent, returnType, bindings⟩ := scope
  simp only [Scope.find?, Scope.update]
  induction bindings with
  | nil => simp
  | cons binding bindings ih =>
    obtain ⟨first, entry⟩ := binding
    rw [List.map_cons]
    by_cases hfirst : first = name
    · subst hfirst
      by_cases hkey : key = first
      · subst hkey
        simp
      · have hne : (key == first) = false := by simpa using hkey
        simp only [if_true, if_neg hkey, List.lookup_cons, hne] at ih ⊢
        exact ih
    · rw [if_neg hfirst]
      by_cases hkey : key = name
      · subst hkey
        have hne : (key == first) = false := by simpa using Ne.symm hfirst
        simp only [if_true, List.lookup_cons, hne] at ih ⊢
        exact ih
      · simp only [if_neg hkey, List.lookup_cons] at ih ⊢
        rw [ih]

namespace Arena

/-! ## Requests -/

/-- Something that is asked of an arena. -/
inductive Request where
  | openScope (parent : Option Nat) (returnType : Option ValueType)
  | close (index : Nat)
  | declare (index : Option Nat) (name : String) (value : Value) (type : ValueType)
      (position : Position)
  | assign (start : Option Nat) (name : String) (value : Value) (position : Position)
  | lookup (start : Option Nat) (name : String)
  | valueOf (start : Option Nat) (name : String) (position : Position)
  | returnTypeOf (start : Option Nat)

/-- What a request is answered with. -/
inductive Answer where
  /-- The index of the scope that was opened. -/
  | opened (index : Nat)
  | done
  | found (entry : Option Variable)
  | value (value : Value)
  | type (type : ValueType)

/-- An arena after something was to change it: the changed one, or the same if that failed. -/
def change (arena : Arena) : Except Fault Arena → Except Fault Answer × Arena
  | .ok changed => (.ok .done, changed)
  | .error fault => (.error fault, arena)

/-- The answer to a request, and the arena afterwards. -/
def serve (arena : Arena) : Request → Except Fault Answer × Arena
  | .openScope parent returnType =>
    (.ok (.opened arena.size), arena.openScope parent returnType)
  | .close index => arena.change (arena.close index)
  | .declare index name value type position =>
    arena.change (arena.declare index name value type position)
  | .assign start name value position => arena.change (arena.assign start name value position)
  | .lookup start name => ((arena.lookup start name).map .found, arena)
  | .valueOf start name position => ((arena.valueOf start name position).map .value, arena)
  | .returnTypeOf start => ((arena.returnTypeOf start).map .type, arena)

/-- A scope is opened inside no other one, or inside one that is open. All else can be asked with
any indices. -/
def Request.Permitted (arena : Arena) : Request → Prop
  | .openScope parent _ => ∀ index ∈ parent, index < arena.size
  | _ => True

instance decidablePermitted (arena : Arena) : ∀ request : Request,
    Decidable (request.Permitted arena)
  | .openScope parent _ => inferInstanceAs (Decidable (∀ index ∈ parent, index < arena.size))
  | .close _ | .declare .. | .assign .. | .lookup .. | .valueOf .. | .returnTypeOf _ =>
    inferInstanceAs (Decidable True)

/-- The arena after some requests, whether they were served or refused. -/
def serveAll (arena : Arena) : List Request → Arena
  | [] => arena
  | request :: history => (arena.serve request).2.serveAll history

/-- Each of some requests is permitted when it is made. -/
def Permits (arena : Arena) : List Request → Prop
  | [] => True
  | request :: history => request.Permitted arena ∧ (arena.serve request).2.Permits history

instance decidablePermits : ∀ (arena : Arena) (history : List Request),
    Decidable (arena.Permits history)
  | _, [] => inferInstanceAs (Decidable True)
  | arena, request :: history =>
    have := decidablePermits (arena.serve request).2 history
    inferInstanceAs (Decidable (request.Permitted arena ∧ _))

/-! ## What a request changes -/

variable {arena arena' : Arena}

/-- The ways in which a request can change an arena. -/
inductive Changes (arena : Arena) : Request → Arena → Prop
  | opens {parent : Option Nat} {returnType : Option ValueType} :
    Changes arena (.openScope parent returnType) (arena.openScope parent returnType)
  | closes {index : Nat} {arena' : Arena} : arena.close index = .ok arena' →
    Changes arena (.close index) arena'
  | declares {index : Option Nat} {name : String} {value : Value} {type : ValueType}
      {position : Position} {arena' : Arena} :
    arena.declare index name value type position = .ok arena' →
    Changes arena (.declare index name value type position) arena'
  | assigns {start : Option Nat} {name : String} {value : Value} {position : Position}
      {arena' : Arena} : arena.assign start name value position = .ok arena' →
    Changes arena (.assign start name value position) arena'
  | nothing {request : Request} : Changes arena request arena

/-- **What is done for a request is what the request changes.** -/
theorem serve_changes (arena : Arena) (request : Request) :
    arena.Changes request (arena.serve request).2 := by
  cases request with
  | openScope parent returnType => exact .opens
  | close index =>
    simp only [serve]
    rcases hclose : arena.close index with fault | arena'
    · exact .nothing
    · exact .closes hclose
  | declare index name value type position =>
    simp only [serve]
    rcases hdeclare : arena.declare index name value type position with fault | arena'
    · exact .nothing
    · exact .declares hdeclare
  | assign start name value position =>
    simp only [serve]
    rcases hassign : arena.assign start name value position with fault | arena'
    · exact .nothing
    · exact .assigns hassign
  | lookup start name => exact .nothing
  | valueOf start name position => exact .nothing
  | returnTypeOf start => exact .nothing

/-- A change that fails is none. -/
theorem change_eq_of_error {result : Except Fault Arena} {fault : Fault}
    (h : (arena.change result).1 = .error fault) : (arena.change result).2 = arena := by
  rcases result with fault' | changed
  · rfl
  · cases h

/-- A request that fails changes nothing. -/
theorem serve_eq_of_error {request : Request} {fault : Fault}
    (h : (arena.serve request).1 = .error fault) : (arena.serve request).2 = arena := by
  cases request with
  | openScope parent returnType => cases h
  | close index => exact change_eq_of_error h
  | declare index name value type position => exact change_eq_of_error h
  | assign start name value position => exact change_eq_of_error h
  | lookup start name => rfl
  | valueOf start name position => rfl
  | returnTypeOf start => rfl

/-! ## Earlier scopes are outside of later ones -/

/-- Every scope is inside an earlier one, or inside none. -/
def Ordered (arena : Arena) : Prop :=
  ∀ (i : Nat) (scope : Scope), arena.scopes[i]? = some scope →
    ∀ parent, scope.parent = some parent → parent < i

namespace Ordered

theorem empty : Arena.empty.Ordered := by
  intro i scope h
  simp [Arena.empty] at h

/-- Changing variables does not move a scope. -/
theorem of_edits (h : arena.Ordered) (hedits : Edits 0 arena arena') : arena'.Ordered := by
  intro i scope' hscope' parent hparent'
  obtain ⟨scope, hscope, hparent, -⟩ := hedits.shape i scope' hscope'
  exact h i scope hscope parent (hparent ▸ hparent')

/-- A permitted request keeps the order. -/
theorem changes (h : arena.Ordered) {request : Request} (hpermitted : request.Permitted arena)
    (hchanges : arena.Changes request arena') : arena'.Ordered := by
  cases hchanges with
  | opens => exact forall_openScope h hpermitted
  | closes hclose => exact forall_close h hclose
  | declares hdeclare =>
    obtain ⟨i, scope, -, -, -, -, rfl⟩ := declare_eq_ok hdeclare
    exact h.of_edits (.modify (Nat.zero_le i) fun _ => ⟨rfl, rfl⟩)
  | assigns hassign =>
    obtain ⟨i, entry, -, -, rfl⟩ := assign_eq_ok hassign
    exact h.of_edits (.modify (Nat.zero_le i) fun _ => ⟨rfl, rfl⟩)
  | nothing => exact h

end Ordered

/-- Permitted requests keep the order, one after the other. -/
theorem Ordered.serveAll {history : List Request} (h : arena.Ordered)
    (hpermits : arena.Permits history) : (arena.serveAll history).Ordered := by
  induction history generalizing arena with
  | nil => exact h
  | cons request history ih =>
    obtain ⟨hpermitted, hpermits⟩ := hpermits
    exact ih (h.changes hpermitted (serve_changes arena request)) hpermits

theorem Keeps.changes (h : arena.Keeps Variable.Typed) {request : Request}
    (hchanges : arena.Changes request arena') : arena'.Keeps Variable.Typed := by
  cases hchanges with
  | opens => exact h.openScope _ _
  | closes hclose => exact h.close hclose
  | declares hdeclare => exact h.declare id hdeclare
  | assigns hassign => exact h.assign (fun _ _ htype => htype) hassign
  | nothing => exact h

/-- Requests keep the types of variables, permitted or not. -/
theorem Keeps.serveAll (h : arena.Keeps Variable.Typed) (history : List Request) :
    (arena.serveAll history).Keeps Variable.Typed := by
  induction history generalizing arena with
  | nil => exact h
  | cons request history ih => exact ih (h.changes (serve_changes arena request))

/-! ## The way outward -/

/-- The scopes on the way outward from one, the nearest first. The way ends at the first scope that
belongs to a call, or at one that is inside no other. -/
inductive Path (arena : Arena) : Nat → List Nat → Prop
  | last {i : Nat} {scope : Scope} : arena.scopes[i]? = some scope →
    scope.returnType.isSome ∨ scope.parent = none → Path arena i [i]
  | outward {i parent : Nat} {scope : Scope} {path : List Nat} :
    arena.scopes[i]? = some scope → scope.returnType = none → scope.parent = some parent →
    Path arena parent path → Path arena i (i :: path)

/-- **Between ordered scopes the way outward has an end**: it goes to smaller indices only. -/
theorem Ordered.exists_path (h : arena.Ordered) {i : Nat} (hi : i < arena.size) :
    ∃ path, arena.Path i path ∧ path.Pairwise (· > ·) ∧ ∀ j ∈ path, j ≤ i := by
  induction i using Nat.strongRecOn with
  | ind i ih =>
    have hscope : arena.scopes[i]? = some arena.scopes[i] := Array.getElem?_eq_getElem hi
    generalize arena.scopes[i] = scope at hscope
    have hlast : arena.Path i [i] → ∃ path, arena.Path i path ∧ path.Pairwise (· > ·) ∧
        ∀ j ∈ path, j ≤ i :=
      fun hpath => ⟨[i], hpath, List.pairwise_singleton _ i, by simp⟩
    rcases hcall : scope.returnType with _ | type
    · rcases hparent : scope.parent with _ | parent
      · exact hlast (.last hscope (.inr hparent))
      · have hlt := h i scope hscope parent hparent
        obtain ⟨path, hpath, hpairwise, hle⟩ := ih parent hlt (Nat.lt_trans hlt hi)
        refine ⟨i :: path, .outward hscope hcall hparent hpath, ?_, ?_⟩
        · exact List.pairwise_cons.2 ⟨fun j hj => Nat.lt_of_le_of_lt (hle j hj) hlt, hpairwise⟩
        · rintro j hj
          rcases List.mem_cons.1 hj with rfl | hj
          · exact Nat.le_refl j
          · exact Nat.le_trans (hle j hj) (Nat.le_of_lt hlt)
    · exact hlast (.last hscope (.inl (by simp [hcall])))

/-- A way outward is no longer than there are scopes up to its start. -/
theorem Path.length_le {i : Nat} {path : List Nat} (h : arena.Path i path)
    (hordered : arena.Ordered) : path.length ≤ i + 1 := by
  induction h with
  | last => exact Nat.succ_le_succ (Nat.zero_le _)
  | outward hscope _ hparent _ ih =>
    have hlt := hordered _ _ hscope _ hparent
    simp only [List.length_cons]
    omega

theorem Path.lt_size {i : Nat} {path : List Nat} (h : arena.Path i path) : i < arena.size := by
  cases h with
  | last hscope _ => exact (Array.getElem?_eq_some_iff.1 hscope).1
  | outward hscope _ _ _ => exact (Array.getElem?_eq_some_iff.1 hscope).1

/-- **A search goes the way outward**, and finds what the first scope has to offer that has
something. It does not matter how many more scopes it was allowed to visit. -/
theorem Path.searchUpTo_eq {α : Type} {i : Nat} {path : List Nat} (h : arena.Path i path)
    (found? : Nat → Scope → Option α) {fuel : Nat} (hfuel : path.length ≤ fuel) :
    arena.searchUpTo found? fuel (some i) =
      .ok (path.findSome? fun j => arena.scopes[j]?.bind (found? j)) := by
  induction h generalizing fuel with
  | @last i scope hscope hend =>
    obtain ⟨fuel, rfl⟩ : ∃ n, fuel = n + 1 := ⟨fuel - 1, by simp at hfuel; omega⟩
    rcases hfound : found? i scope with _ | a
    · rcases hend with hcall | hparent
      · simp [searchUpTo, hscope, hfound, hcall]
      · simp [searchUpTo, hscope, hfound, hparent]
    · simp [searchUpTo, hscope, hfound]
  | @outward i parent scope path hscope hcall hparent _ ih =>
    obtain ⟨fuel, rfl⟩ : ∃ n, fuel = n + 1 := ⟨fuel - 1, by simp at hfuel; omega⟩
    rcases hfound : found? i scope with _ | a
    · have hrest := ih (Nat.le_of_succ_le_succ hfuel)
      simp [searchUpTo, hscope, hfound, hcall, hparent, hrest]
    · simp [searchUpTo, hscope, hfound]

/-- A search from a scope goes through the scopes on the way outward, in order. -/
theorem Path.search_eq {α : Type} {i : Nat} {path : List Nat} (h : arena.Path i path)
    (hordered : arena.Ordered) (found? : Nat → Scope → Option α) :
    arena.search found? (some i) =
      .ok (path.findSome? fun j => arena.scopes[j]?.bind (found? j)) := by
  apply h.searchUpTo_eq
  have hlength := h.length_le hordered
  have hlt := h.lt_size
  omega

/-! ## What is found on the way -/

/-- The variable of a name in the scope of an index. -/
def entryAt (arena : Arena) (name : String) (i : Nat) : Option Variable :=
  arena.scopes[i]?.bind fun scope => scope.find? name

/-- The first scope on a way that declares a name, with the variable. -/
def nearestOn (arena : Arena) (path : List Nat) (name : String) : Option (Nat × Variable) :=
  path.findSome? fun i => (arena.entryAt name i).map fun entry => (i, entry)

theorem Path.resolve_eq {i : Nat} {path : List Nat} (h : arena.Path i path)
    (hordered : arena.Ordered) (name : String) :
    arena.resolve (some i) name = .ok (arena.nearestOn path name) := by
  have hfound : (fun j => arena.scopes[j]?.bind fun scope =>
      (scope.find? name).map fun entry => (j, entry)) =
      fun j => (arena.entryAt name j).map fun entry => (j, entry) := by
    funext j
    simp only [entryAt]
    cases arena.scopes[j]? <;> rfl
  rw [resolve, h.search_eq hordered, hfound, nearestOn]

theorem entryAt_of_nearestOn {path : List Nat} {name : String} {i : Nat} {entry : Variable}
    (h : arena.nearestOn path name = some (i, entry)) : arena.entryAt name i = some entry := by
  obtain ⟨j, -, hj⟩ := List.exists_of_findSome?_eq_some h
  obtain ⟨entry', hentry, heq⟩ := Option.map_eq_some_iff.1 hj
  obtain ⟨rfl, rfl⟩ := Prod.mk.inj heq
  exact hentry

/-- An assignment that found a variable gives it the new value, and no other variable. -/
theorem entryAt_update {name : String} {i : Nat} {entry : Variable}
    (h : arena.entryAt name i = some entry) (value : Value) (key : String) (j : Nat) :
    Arena.entryAt ⟨arena.scopes.modify i (·.update name value)⟩ key j =
      if j = i ∧ key = name then some { entry with value } else arena.entryAt key j := by
  simp only [entryAt, Array.getElem?_modify]
  by_cases hj : i = j
  · subst hj
    obtain ⟨scope, hscope, hfind⟩ := Option.bind_eq_some_iff.1 h
    simp [hscope, Scope.find?_update, hfind]
  · rw [if_neg hj, if_neg fun hboth => hj hboth.1.symm]

/-- What is answered in a scope, when `path` is the way outward from it. -/
structure AnswersAlong (arena : Arena) (i : Nat) (path : List Nat) : Prop where
  /-- The nearest scope that declares a name tells what it means. -/
  lookup : ∀ name, arena.lookup (some i) name = .ok ((arena.nearestOn path name).map Prod.snd)
  valueOf : ∀ name j entry, arena.nearestOn path name = some (j, entry) → ∀ position,
    arena.valueOf (some i) name position = .ok entry.value
  /-- An assignment is made in that scope. It changes nothing but the value of that variable. -/
  assign : ∀ name j entry, arena.nearestOn path name = some (j, entry) → ∀ value position,
    value.type = entry.type → ∃ arena', arena.assign (some i) name value position = .ok arena' ∧
      arena'.outline = arena.outline ∧
      ∀ key k, arena'.entryAt key k =
        if k = j ∧ key = name then some { entry with value } else arena.entryAt key k
  mismatch : ∀ name j entry, arena.nearestOn path name = some (j, entry) → ∀ value position,
    value.type ≠ entry.type → arena.assign (some i) name value position =
      .error (.semantic position (.typeMismatch value.type entry.type))
  /-- A name that no scope on the way declares has no meaning. -/
  undefined : ∀ name, arena.nearestOn path name = none → ∀ value position,
    arena.valueOf (some i) name position =
        .error (.semantic position (.undefinedVariable name)) ∧
      arena.assign (some i) name value position =
        .error (.semantic position (.undefinedVariable name))
  /-- What is to be returned is known to the last scope on the way, if it belongs to a call. -/
  returnTypeOf : ∃ j scope, path.getLast? = some j ∧ arena.scopes[j]? = some scope ∧
    arena.returnTypeOf (some i) = .ok (scope.returnType.getD .void)

/-- Only the last scope on a way may belong to a call. -/
theorem Path.returnType_eq {i : Nat} {path : List Nat} (h : arena.Path i path) :
    ∃ j scope, path.getLast? = some j ∧ arena.scopes[j]? = some scope ∧
      (path.findSome? fun k => arena.scopes[k]?.bind Scope.returnType) = scope.returnType := by
  induction h with
  | @last i scope hscope _ =>
    refine ⟨i, scope, rfl, hscope, ?_⟩
    rcases hcall : scope.returnType with _ | type
    · simp [hscope, hcall]
    · simp [hscope, hcall]
  | @outward i parent scope path hscope hcall _ hpath ih =>
    obtain ⟨j, last, hlast, hj, htype⟩ := ih
    refine ⟨j, last, ?_, hj, ?_⟩
    · rw [List.getLast?_cons, hlast]
      rfl
    · simpa [hscope, hcall] using htype

/-- Every question that is asked at a scope is answered along its way outward. -/
theorem Path.answersAlong {i : Nat} {path : List Nat} (h : arena.Path i path)
    (hordered : arena.Ordered) : arena.AnswersAlong i path := by
  -- every answer is that of one search, along the way
  have hresolve := h.resolve_eq hordered
  constructor
  case lookup =>
    intro name
    rw [Arena.lookup, hresolve]
    rfl
  case valueOf =>
    intro name j entry hnearest position
    simp only [Arena.valueOf, Arena.lookup, hresolve, hnearest]
    rfl
  case assign =>
    intro name j entry hnearest value position htype
    have hassign : arena.assign (some i) name value position =
        .ok ⟨arena.scopes.modify j (·.update name value)⟩ := by
      simp only [Arena.assign, hresolve, hnearest, bind, Except.bind, checkType, if_pos htype]
      rfl
    exact ⟨_, hassign, outline_assign hassign,
      fun key k => entryAt_update (entryAt_of_nearestOn hnearest) value key k⟩
  case mismatch =>
    intro name j entry hnearest value position htype
    simp only [Arena.assign, hresolve, hnearest, bind, Except.bind, checkType, if_neg htype]
  case undefined =>
    intro name hnearest value position
    constructor
    · simp only [Arena.valueOf, Arena.lookup, hresolve, hnearest]
      rfl
    · simp only [Arena.assign, hresolve, hnearest, bind, Except.bind]
  case returnTypeOf =>
    obtain ⟨j, scope, hlast, hscope, htype⟩ := h.returnType_eq
    refine ⟨j, scope, hlast, hscope, ?_⟩
    rw [Arena.returnTypeOf, h.search_eq hordered, htype]
    rfl

end Arena

/-- **Scopes stay in order, whatever is done to them.** After every history of requests, served or
refused, a scope is inside an earlier one, variables have values of their types, and a refused
request changes nothing. From every open scope there is a way outward along earlier and earlier open
scopes, which ends at the first scope of a call or at one that is inside no other. What a name means
there is found in the first scope on the way that declares it, and nowhere else. -/
theorem arena_histories {history : List Arena.Request} {arena : Arena}
    (hpermits : Arena.empty.Permits history) (harena : Arena.empty.serveAll history = arena) :
    (∀ (i : Nat) (scope : Scope) (parent : Nat), arena.scopes[i]? = some scope →
      scope.parent = some parent → parent < i) ∧
    (∀ (i : Nat) (scope : Scope), arena.scopes[i]? = some scope →
      (scope.bindings.map Prod.fst).Nodup ∧
      ∀ binding ∈ scope.bindings, binding.2.value.type = binding.2.type) ∧
    (∀ request fault, (arena.serve request).1 = .error fault → (arena.serve request).2 = arena) ∧
    ∀ i, i < arena.size →
      ∃ path, arena.Path i path ∧ path.Pairwise (· > ·) ∧ arena.AnswersAlong i path := by
  subst harena
  have hordered := Arena.Ordered.empty.serveAll hpermits
  have htyped := (Arena.Keeps.empty : Arena.empty.Keeps Variable.Typed).serveAll history
  refine ⟨fun i scope parent hscope => hordered i scope hscope parent, ?_, ?_, ?_⟩
  · exact fun i scope hscope => ⟨(htyped i scope hscope).names, (htyped i scope hscope).entries⟩
  · exact fun request fault => Arena.serve_eq_of_error
  · intro i hi
    obtain ⟨path, hpath, hpairwise, -⟩ := hordered.exists_path hi
    exact ⟨path, hpath, hpairwise, hpath.answersAlong hordered⟩

/-- A scope is closed, and the next one gets its index. Two requests are refused: to close a scope
that is not open, and to declare a name again. -/
def reopening : List Arena.Request :=
  [.openScope none (some .void), .declare (some 0) "x" (.int 1) (.basic .int) ⟨1, 5⟩,
   .openScope (some 0) (some (.basic .int)),
   .declare (some 1) "x" (.bool true) (.basic .bool) ⟨2, 6⟩, .close 1, .close 1,
   .openScope (some 0) none, .openScope (some 1) none,
   .declare (some 0) "x" (.int 7) (.basic .int) ⟨3, 5⟩, .assign (some 2) "x" (.int 2) ⟨4, 1⟩]

/-- What is open then. -/
def reopened : Arena :=
  ⟨#[⟨none, some .void, [("x", ⟨.int 2, .basic .int, ⟨1, 5⟩⟩)]⟩, ⟨some 0, none, []⟩,
    ⟨some 1, none, []⟩]⟩

theorem arena_histories_reopening :
    Arena.empty.Permits reopening ∧ Arena.empty.serveAll reopening = reopened ∧
      ∃ path, reopened.Path 2 path ∧ path.Pairwise (· > ·) ∧ reopened.AnswersAlong 2 path := by
  have hpermits : Arena.empty.Permits reopening := by decide +kernel
  have hreopened : Arena.empty.serveAll reopening = reopened := by decide +kernel
  obtain ⟨-, -, -, hpath⟩ := arena_histories hpermits hreopened
  exact ⟨hpermits, hreopened, hpath 2 (by decide)⟩

end FLang
