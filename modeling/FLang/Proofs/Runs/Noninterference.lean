import FLang.Embedded.Standard
import FLang.Proofs.Runs.Balance
import FLang.Proofs.Scopes.Evaluation
import FLang.Proofs.Scopes.Parallel

/-!
# Calls do not see their caller

What a call does depends on the function, on its arguments and on how often each function is active
already. It does not depend on the scopes of the caller: neither on their variables, nor on how many
there are or how they are nested.

The proof runs a call twice, in two machines whose scopes have nothing to do with each other.

* `Machine.Alike` — what the two machines have in common: active calls, what is on its way, and
  what was printed since the call;
* `Machine.Twin` — inside the body, also the current scopes: they lie in parallel regions;
* `mirroring` — twins stay twins, as a relation that evaluation keeps;
* `Eval.Blind` — a computation that cannot tell machines apart that are alike;
* `invoke_alike` — calls are such computations.
-/

namespace FLang

open Eval Evaluation

/-! ## Machines that are alike -/

/-- Two machines that agree on everything but their scopes, and on what was printed after `prior` in
the one and after `prior'` in the other. -/
structure Machine.Alike (prior prior' : String) (m m' : Machine) : Prop where
  calls : ∀ name, m'.calls.depth name = m.calls.depth name
  pending : m'.pending = m.pending
  output : ∃ text, m.output = prior ++ text ∧ m'.output = prior' ++ text

/-- Two machines that are alike, in scopes at the same distance from the starts of parallel
regions. -/
structure Machine.Twin (prior prior' : String) (base base' count index : Nat) (m m' : Machine) :
    Prop extends Machine.Alike prior prior' m m' where
  scope : m.scope = some (base + index)
  scope' : m'.scope = some (base' + index)
  index_lt : index < count
  arena : m.arena.Parallel base base' count m'.arena

/-- Two computations that end in the same way on twins, and leave twins. -/
def Eval.MirroredBy {α : Type} (base base' : Nat) (x y : Eval α) : Prop :=
  ∀ ⦃prior prior' count index m m'⦄, Machine.Twin prior prior' base base' count index m m' →
    (y m').1 = (x m).1 ∧ Machine.Twin prior prior' base base' count index (x m).2 (y m').2

namespace Eval.MirroredBy

variable {α β : Type} {base base' : Nat} {x y : Eval α}

/-- Sequences are mirrored, if their parts are. -/
theorem bind {f g : α → Eval β} (h : x.MirroredBy base base' y)
    (hf : ∀ a, (f a).MirroredBy base base' (g a)) : (x >>= f).MirroredBy base base' (y >>= g) := by
  intro prior prior' count index m m' htwin
  obtain ⟨houtcome, htwin'⟩ := h htwin
  rcases hxm : x m with ⟨a | fault | _, m₁⟩ <;> rcases hym : y m' with ⟨outcome, m₁'⟩ <;>
    rw [hxm, hym] at houtcome htwin' <;> simp only at houtcome <;> subst houtcome
  · rw [Eval.bind_of_value hxm, Eval.bind_of_value hym]
    exact hf a htwin'
  · rw [Eval.bind_of_fault hxm, Eval.bind_of_fault hym]
    exact ⟨rfl, htwin'⟩
  · rw [Eval.bind_of_exhausted hxm, Eval.bind_of_exhausted hym]
    exact ⟨rfl, htwin'⟩

theorem ofExcept (result : Except Fault α) :
    (Eval.ofExcept result).MirroredBy base base' (Eval.ofExcept result) := by
  intro prior prior' count index m m' htwin
  cases result <;> exact ⟨rfl, htwin⟩

/-- A change of variables is mirrored, if it changes both regions alike. -/
theorem updateArena {f : Arena → Option Nat → Except Fault Arena}
    (hf : ∀ {arena arena' count i}, Arena.Parallel base base' count arena arena' → i < count →
      Arena.Parallel.BothChange base base' count (f arena (some (base + i)))
        (f arena' (some (base' + i)))) :
    (Eval.updateArena f).MirroredBy base base' (Eval.updateArena f) := by
  intro prior prior' count index m m' htwin
  have hboth := hf htwin.arena htwin.index_lt
  rw [← htwin.scope, ← htwin.scope'] at hboth
  obtain ⟨changed, changed', hchanged, hchanged', harena⟩ | ⟨fault, hfault, hfault'⟩ := hboth
  · simp only [Eval.updateArena, hchanged, hchanged']
    exact ⟨trivial, { htwin with arena := harena }⟩
  · simp only [Eval.updateArena, hfault, hfault']
    exact ⟨trivial, htwin⟩

/-- A variable has the same value in both regions. -/
theorem readVariable (name : String) (position : Position) :
    (Eval.readVariable name position).MirroredBy base base' (Eval.readVariable name position) := by
  intro prior prior' count index m m' htwin
  have hvalue : m'.arena.valueOf m'.scope name position =
      m.arena.valueOf m.scope name position := by
    rw [htwin.scope, htwin.scope']
    exact htwin.arena.valueOf_eq htwin.index_lt name position
  simp only [Eval.readVariable, ask, hvalue]
  exact ofExcept _ htwin

/-- The call that a value is given back from owes the same type in both regions. -/
theorem giveBack (value : Value) (position : Position) :
    (Eval.giveBack value position).MirroredBy base base' (Eval.giveBack value position) := by
  intro prior prior' count index m m' htwin
  have hexpected : m'.arena.returnTypeOf m'.scope = m.arena.returnTypeOf m.scope := by
    rw [htwin.scope, htwin.scope']
    exact htwin.arena.returnTypeOf_eq htwin.index_lt
  rw [Eval.giveBack_eq, Eval.giveBack_eq, hexpected]
  rcases m.arena.returnTypeOf m.scope with fault | expected
  · exact ⟨rfl, htwin⟩
  · by_cases htype : value.type = expected
    · simp only [if_pos htype]
      exact ⟨trivial, { htwin with pending := rfl }⟩
    · simp only [if_neg htype]
      exact ⟨trivial, htwin⟩

theorem emit (text : String) : (Eval.emit text).MirroredBy base base' (Eval.emit text) := by
  intro prior prior' count index m m' htwin
  obtain ⟨earlier, houtput, houtput'⟩ := htwin.output
  refine ⟨rfl, { htwin with output := ⟨earlier ++ text, ?_, ?_⟩ }⟩
  · simp only [Eval.emit, houtput, String.append_assoc]
  · simp only [Eval.emit, houtput', String.append_assoc]

theorem isReturning : Eval.isReturning.MirroredBy base base' Eval.isReturning := by
  intro prior prior' count index m m' htwin
  refine ⟨?_, htwin⟩
  simp only [Eval.isReturning, htwin.pending]

theorem takeReturned : Eval.takeReturned.MirroredBy base base' Eval.takeReturned := by
  intro prior prior' count index m m' htwin
  refine ⟨?_, { htwin with pending := rfl }⟩
  simp only [Eval.takeReturned, htwin.pending]

/-- A scope that is opened inside twins: twins again, one scope further. -/
theorem nested (h : x.MirroredBy base base' y) :
    (withScope none x).MirroredBy base base' (withScope none y) := by
  intro prior prior' count index m m' htwin
  have hopened : Machine.Twin prior prior' base base' (count + 1) count (m.opened none)
      (m'.opened none) := by
    refine { htwin.toAlike with
      scope := congrArg some htwin.arena.size, scope' := congrArg some htwin.arena.size',
      index_lt := Nat.lt_succ_self count, arena := ?_ }
    simp only [Machine.opened, htwin.scope, htwin.scope']
    exact htwin.arena.openScope htwin.index_lt
  obtain ⟨houtcome, hbody⟩ := h hopened
  have hsize := htwin.arena.size
  have hsize' := htwin.arena.size'
  have hbodySize := hbody.arena.size
  have hbodySize' := hbody.arena.size'
  rw [Eval.withScope_eq (by omega), Eval.withScope_eq (by omega)]
  refine ⟨houtcome, { hbody.toAlike with
    scope := htwin.scope, scope' := htwin.scope', index_lt := htwin.index_lt, arena := ?_ }⟩
  simp only [Machine.closed, hsize, hsize']
  exact hbody.arena.close

end Eval.MirroredBy

/-- Twins that stay twins, as a relation that evaluation keeps. -/
def mirroring (base base' : Nat) : Congruence where
  rel x y := x.MirroredBy base base' y
  pure _ _ _ _ _ _ _ htwin := ⟨rfl, htwin⟩
  fail _ _ _ _ _ _ _ htwin := ⟨rfl, htwin⟩
  bind := .bind
  readVariable := .readVariable
  declare name value type position :=
    .updateArena fun hparallel hi => hparallel.declare hi name value type position
  assign name value position :=
    .updateArena fun hparallel hi => hparallel.assign hi name value position
  emit := .emit
  giveBack := .giveBack
  isReturning := .isReturning
  takeReturned := .takeReturned
  nested := .nested

theorem mirroring_repeats (base base' bound : Nat) :
    (mirroring base base').Repeats bound bound :=
  (mirroring base base').repeats_same (fun _ _ _ _ _ _ htwin => ⟨rfl, htwin⟩) bound

/-! ## Calls -/

/-- A computation that does not see the scopes in which it starts: on machines that are alike it
ends in the same way, and it leaves them alike. -/
def Eval.Blind {α : Type} (x : Eval α) : Prop :=
  ∀ ⦃prior prior' m m'⦄, Machine.Alike prior prior' m m' →
    (x m').1 = (x m).1 ∧ Machine.Alike prior prior' (x m).2 (x m').2

namespace Eval.Blind

variable {α β : Type} {x : Eval α}

theorem bind {f : α → Eval β} (hx : x.Blind) (hf : ∀ a, (f a).Blind) : (x >>= f).Blind := by
  intro prior prior' m m' h
  obtain ⟨houtcome, halike⟩ := hx h
  rcases hxm : x m with ⟨a | fault | _, m₁⟩ <;> rcases hxm' : x m' with ⟨outcome, m₁'⟩ <;>
    rw [hxm, hxm'] at houtcome halike <;> simp only at houtcome <;> subst houtcome
  · rw [Eval.bind_of_value hxm, Eval.bind_of_value hxm']
    exact hf a halike
  · rw [Eval.bind_of_fault hxm, Eval.bind_of_fault hxm']
    exact ⟨rfl, halike⟩
  · rw [Eval.bind_of_exhausted hxm, Eval.bind_of_exhausted hxm']
    exact ⟨rfl, halike⟩

/-- A body that mirrors twins, in the scope of a call: its region starts with that scope. -/
theorem withScope (hx : ∀ base base', x.MirroredBy base base' x) (hbalanced : x.Balanced)
    (returnType : ValueType) : (Eval.withScope (some returnType) x).Blind := by
  intro prior prior' m m' h
  have htwin : Machine.Twin prior prior' m.arena.size m'.arena.size 1 0
      (m.opened (some returnType)) (m'.opened (some returnType)) :=
    { h with
      scope := rfl, scope' := rfl, index_lt := Nat.one_pos
      arena := .of_call m.arena m'.arena m.scope m'.scope returnType }
  obtain ⟨houtcome, hbody⟩ := hx _ _ htwin
  rw [hbalanced.withScope_eq, hbalanced.withScope_eq]
  exact ⟨houtcome, { hbody.toAlike with }⟩

/-- The end of a call looks only at what is on its way. -/
theorem finishCall (function : Function) : (Evaluation.finishCall function).Blind := by
  intro prior prior' m m' h
  rw [finishCall_eq, finishCall_eq, h.pending]
  rcases m.pending with _ | value
  · by_cases hvoid : function.returnType = .void
    · simp only [if_pos hvoid]
      exact ⟨trivial, h⟩
    · simp only [if_neg hvoid]
      exact ⟨trivial, h⟩
  · exact ⟨rfl, { h with pending := rfl }⟩

/-- A call that is counted sees as little as its body. -/
theorem whileActive (hx : x.Blind) (name : String) : (Eval.whileActive name x).Blind := by
  intro prior prior' m m' h
  have hpush : Machine.Alike prior prior' { m with calls := m.calls.push name }
      { m' with calls := m'.calls.push name } :=
    { h with calls := fun other => by simp only [CallStack.depth_push, h.calls] }
  obtain ⟨houtcome, halike⟩ := hx hpush
  have hpop : ∀ other, ((x { m' with calls := m'.calls.push name }).2.calls.pop name).depth other =
      ((x { m with calls := m.calls.push name }).2.calls.pop name).depth other := by
    intro other
    simp only [CallStack.depth_pop, halike.calls]
  exact ⟨houtcome, { halike with calls := hpop }⟩

end Eval.Blind

/-- Calls leave the scopes of their caller as they are. -/
theorem invoke_scopes (setting : Setting) (bound : Nat) (function : Function)
    (arguments : List Value) (position : Position) (m : Machine) :
    (invoke setting bound function arguments position m).2.arena = m.arena ∧
      (invoke setting bound function arguments position m).2.scope = m.scope := by
  have hsupports : Supports (fun _ => True) setting (invoke setting bound) :=
    invoke_follows (fun _ => trivial) (fun _ => trivial) (fun _ _ _ _ _ _ => trivial) bound
  exact (hsupports.calls function arguments position (fun _ _ => True) m trivial).1

/-- Twins stay twins if nested calls do not see their scopes: a call gives back the scopes of
twins. -/
theorem linked_mirroring {setting : Setting} {bound : Nat}
    (hcalls : ∀ function arguments position,
      (invoke setting bound function arguments position).Blind) (base base' : Nat) :
    (mirroring base base').Links setting setting (invoke setting bound) (invoke setting bound)
      bound bound := by
  refine ⟨rfl, rfl, fun callee _ values place => ?_, mirroring_repeats base base' bound⟩
  intro prior prior' count index m m' htwin
  obtain ⟨houtcome, halike⟩ := hcalls callee values place htwin.toAlike
  obtain ⟨harena, hscope⟩ := invoke_scopes setting bound callee values place m
  obtain ⟨harena', hscope'⟩ := invoke_scopes setting bound callee values place m'
  refine ⟨houtcome, { halike with
    scope := hscope.trans htwin.scope, scope' := hscope'.trans htwin.scope'
    index_lt := htwin.index_lt, arena := ?_ }⟩
  rw [harena, harena']
  exact htwin.arena

/-- **A call does the same on machines that are alike**, by induction on how deep calls are
nested. -/
theorem invoke_alike (setting : Setting) (bound : Nat) (function : Function)
    (arguments : List Value) (position : Position) :
    (invoke setting bound function arguments position).Blind := by
  induction bound generalizing function arguments position with
  | zero => exact fun _ _ _ _ h => ⟨rfl, h⟩
  | succ bound ih =>
    intro prior prior' m m' h
    rw [invoke_succ, invoke_succ, h.calls]
    by_cases hdepth : m.calls.depth function.name ≥ setting.maxDepth
    · rw [if_pos hdepth, if_pos hdepth]
      exact ⟨rfl, h⟩
    · rw [if_neg hdepth, if_neg hdepth]
      have henter : ∀ base base', (enter setting (invoke setting bound) bound function arguments
          position).MirroredBy base base'
          (enter setting (invoke setting bound) bound function arguments position) :=
        fun base base' => (linked_mirroring ih base base').enter function arguments position
      have hbalanced := (linked_balance setting bound).enter function arguments position
      have hperform := (Eval.Blind.withScope henter hbalanced function.returnType).bind fun _ =>
        Eval.Blind.finishCall function
      exact hperform.whileActive function.name h

/-- **Calls do not see their caller.** On two machines with the same number of active calls of each
function and nothing on its way, whatever their scopes are, a call of a function with the same
arguments at the same position ends in the same way: with the same value, with the same fault, or
not within the bound. It prints the same. -/
theorem invoke_noninterference (setting : Setting) (bound : Nat) (function : Function)
    (arguments : List Value) (position : Position) (m m' : Machine)
    (hcalls : ∀ name, m'.calls.depth name = m.calls.depth name)
    (hpending : m.pending = none) (hpending' : m'.pending = none) :
    (invoke setting bound function arguments position m').1 =
        (invoke setting bound function arguments position m).1 ∧
      ∃ text, (invoke setting bound function arguments position m).2.output = m.output ++ text ∧
        (invoke setting bound function arguments position m').2.output = m'.output ++ text := by
  have halike : Machine.Alike m.output m'.output m m' :=
    ⟨hcalls, hpending'.trans hpending.symm, "", by simp, by simp⟩
  obtain ⟨houtcome, hafter⟩ := invoke_alike setting bound function arguments position halike
  exact ⟨houtcome, hafter.output⟩

/-- A function that prints something and then reads a variable that it does not declare. -/
def peeking : Function where
  position := ⟨1, 1⟩
  name := "peek"
  parameters := [⟨⟨1, 6⟩, "n", .int⟩]
  returnType := .basic .int
  body := .mk ⟨1, 17⟩ [
    .call ⟨2, 3⟩ "println" [.variable ⟨2, 11⟩ "n"],
    .giveBack ⟨3, 3⟩ (some (.variable ⟨3, 10⟩ "hidden"))]

/-- A program that defines nothing else. -/
def peekingSetting : Setting := ⟨⟨[peeking]⟩, .standard, 100⟩

/-- A machine in which that variable is in scope, while two calls are active. -/
def occupied : Machine where
  arena := ⟨#[⟨none, some .void, [("hidden", ⟨.int 42, .basic .int, ⟨6, 7⟩⟩)]⟩]⟩
  scope := some 0
  calls := ⟨["peek", "main"]⟩
  output := "before"

/-- A machine with the same active calls and no scope at all. -/
def vacant : Machine where
  calls := ⟨["main", "peek"]⟩

theorem invoke_noninterference_peeking :
    (∀ name, vacant.calls.depth name = occupied.calls.depth name) ∧
      (invoke peekingSetting 5 peeking [.int 3] ⟨7, 3⟩ occupied).1 =
        .fault (.semantic ⟨3, 10⟩ (.undefinedVariable "hidden")) ∧
      (invoke peekingSetting 5 peeking [.int 3] ⟨7, 3⟩ vacant).1 =
        (invoke peekingSetting 5 peeking [.int 3] ⟨7, 3⟩ occupied).1 ∧
      ∃ text,
        (invoke peekingSetting 5 peeking [.int 3] ⟨7, 3⟩ occupied).2.output =
          occupied.output ++ text ∧
        (invoke peekingSetting 5 peeking [.int 3] ⟨7, 3⟩ vacant).2.output =
          vacant.output ++ text := by
  have hcalls : ∀ name, vacant.calls.depth name = occupied.calls.depth name :=
    fun name => (List.Perm.swap "peek" "main" []).count_eq name
  refine ⟨hcalls, by decide +kernel, ?_⟩
  exact invoke_noninterference peekingSetting 5 peeking [.int 3] ⟨7, 3⟩ occupied vacant hcalls
    rfl rfl

end FLang
