import FLang.Proofs.Runs.Noninterference
import FLang.Session

/-!
# A session can go on

Whatever was asked of a loaded program, and however it ended, nothing is left of it but what was
printed and a value that may still be on its way. So the next call does what it does at the start.

* `Session.Request` — what can be asked, and `Session.after`, the machine after a history of
  requests;
* `Request.after_level` — a request closes what it opens;
* `Machine.Idle` — so between requests no scope is open and no call is active;
* `call_alike` — and a call cannot tell one idle machine from another.
-/

namespace FLang

open Eval Evaluation

namespace Session

/-- Something that a user asks of a loaded program. -/
inductive Request where
  | call (entry : String) (arguments : List Value)
  | runBlock (block : Block) (returnType : ValueType)
  | evaluate (node : Node)
  | execute (node : Node)

/-- The machine after a request, whether it was served or not. -/
def Request.after (setting : Setting) (bound : Nat) (m : Machine) : Request → Machine
  | .call entry arguments => (Session.call setting bound entry arguments m).2
  | .runBlock block returnType => (Session.runBlock setting bound block returnType m).2
  | .evaluate node => (Session.evaluateNode setting bound node m).2
  | .execute node => (Session.executeNode setting bound node m).2

/-- The machine after some requests, each with its own bound. -/
def after (setting : Setting) (history : List (Request × Nat)) : Machine :=
  history.foldl (fun m entry => entry.1.after setting entry.2 m) {}

/-! ## Requests close what they open -/

section
variable (setting : Setting) (bound : Nat)

/-- A call from outside closes what it opens. -/
theorem call_balanced (entry : String) (arguments : List Value) :
    (call setting bound entry arguments).Balanced := by
  rw [call]
  cases setting.program.find? entry with
  | none => exact balance.fail _
  | some function =>
    refine balance.takeReturned.bind fun _ => ?_
    refine (balance.checkCount _ _ _ _).bind fun _ => ?_
    exact invoke_balanced setting bound function arguments function.position

theorem runBlock_balanced (block : Block) (returnType : ValueType) :
    (runBlock setting bound block returnType).Balanced := by
  have hbody : (executeAll setting (invoke setting bound) bound block.statements).Balanced :=
    (linked_balance setting bound).executeAll _
  exact (hbody.withScope (some returnType)).bind fun _ => Machine.Level.refl

/-- So does a request for the value of a part. -/
theorem evaluateNode_balanced (node : Node) : (evaluateNode setting bound node).Balanced := by
  rcases node with e | s | b
  · exact (linked_balance setting bound).evaluate e
  · cases s with
    | call position name arguments => exact (linked_balance setting bound).evaluate _
    | _ => exact balance.fail _
  · exact balance.fail _

theorem executeNode_balanced (node : Node) : (executeNode setting bound node).Balanced := by
  rcases node with e | s | b
  · cases e with
    | call position name arguments => exact (linked_balance setting bound).execute _
    | _ => exact balance.fail _
  · exact (linked_balance setting bound).execute s
  · exact balance.fail _

/-- **Every request leaves the machine on the level where it found it**, whether it succeeds or
fails. -/
theorem Request.after_level (request : Request) (m : Machine) :
    m.Level (request.after setting bound m) := by
  cases request with
  | call entry arguments => exact call_balanced setting bound entry arguments m
  | runBlock block returnType => exact runBlock_balanced setting bound block returnType m
  | evaluate node => exact evaluateNode_balanced setting bound node m
  | execute node => exact executeNode_balanced setting bound node m

end

end Session

/-! ## Between requests -/

/-- No scope is open and no call is active. -/
structure Machine.Idle (m : Machine) : Prop where
  arena : m.arena = .empty
  scope : m.scope = none
  calls : ∀ name, m.calls.depth name = 0

/-- A machine on the same level as an idle one is idle. -/
theorem Machine.Idle.of_level {m m' : Machine} (hm : m.Idle) (h : m.Level m') : m'.Idle := by
  refine ⟨?_, h.scope.trans hm.scope, fun name => h.calls ▸ hm.calls name⟩
  have hsize : m'.arena.scopes.size = 0 := by
    rw [show m'.arena.scopes.size = m.arena.size from h.size, hm.arena]
    rfl
  exact congrArg Arena.mk (Array.eq_empty_of_size_eq_zero hsize)

/-- A new machine is idle. -/
theorem Machine.idle_new : ({} : Machine).Idle := ⟨rfl, rfl, fun _ => rfl⟩

theorem Session.after_idle (setting : Setting) (history : List (Request × Nat)) :
    (after setting history).Idle := by
  -- what is known of the new machine is known after each further request
  suffices h : ∀ m : Machine, m.Idle →
      (history.foldl (fun m entry => entry.1.after setting entry.2 m) m).Idle from
    h {} Machine.idle_new
  induction history with
  | nil => exact fun _ hm => hm
  | cons entry history ih =>
    intro m hm
    exact ih _ (hm.of_level (entry.1.after_level setting entry.2 m))

/-- A call by name drops what is on its way, so that alone does not make a difference to it. -/
theorem Session.call_alike (setting : Setting) (bound : Nat) (entry : String)
    (arguments : List Value) {m m' : Machine} (hm : m.Idle) (hm' : m'.Idle) :
    (call setting bound entry arguments m').1 = (call setting bound entry arguments m).1 ∧
      ∃ text, (call setting bound entry arguments m).2.output = m.output ++ text ∧
        (call setting bound entry arguments m').2.output = m'.output ++ text := by
  rw [call]
  cases setting.program.find? entry with
  | none => exact ⟨rfl, "", by simp [fail], by simp [fail]⟩
  | some function =>
    have halike : Machine.Alike m.output m'.output { m with pending := none }
        { m' with pending := none } :=
      ⟨fun name => (hm'.calls name).trans (hm.calls name).symm, rfl, "", by simp, by simp⟩
    have htake : ∀ (m : Machine) (f : Value → Eval Value),
        (takeReturned >>= f) m = f (m.pending.getD .void) { m with pending := none } :=
      fun _ _ => rfl
    simp only [htake, checkCount]
    by_cases hcount : function.parameters.length = arguments.length
    · simp only [if_pos hcount]
      obtain ⟨houtcome, hafter⟩ :=
        invoke_alike setting bound function arguments function.position halike
      exact ⟨houtcome, hafter.output⟩
    · simp only [if_neg hcount]
      exact ⟨rfl, halike.output⟩

/-- **A session can go on after anything.** After every history of requests, whether they were
served or failed, no scope is open, none is current, and no call is active. So a call of an entry
function gives the same value or the same fault as on a new machine, and prints the same. -/
theorem session_reuse (setting : Setting) (history : List (Session.Request × Nat)) :
    ((Session.after setting history).arena = .empty ∧
      (Session.after setting history).scope = none ∧
      ∀ name, (Session.after setting history).calls.depth name = 0) ∧
    ∀ (bound : Nat) (entry : String) (arguments : List Value),
      (Session.call setting bound entry arguments (Session.after setting history)).1 =
        (Session.call setting bound entry arguments {}).1 ∧
      ∃ text,
        (Session.call setting bound entry arguments (Session.after setting history)).2.output =
          (Session.after setting history).output ++ text ∧
        (Session.call setting bound entry arguments {}).2.output = text := by
  have hidle := Session.after_idle setting history
  refine ⟨⟨hidle.arena, hidle.scope, hidle.calls⟩, fun bound entry arguments => ?_⟩
  obtain ⟨houtcome, text, hnew, hused⟩ :=
    Session.call_alike setting bound entry arguments Machine.idle_new hidle
  exact ⟨houtcome, text, hused, by simpa using hnew⟩

end FLang
