import FLang.Proofs.Runs.Reuse
import FLang.Proofs.Structured.Completeness

/-!
# Blocks in a session

A block is run like the body of a call: in a scope of its own, and the value that it returns is its
answer. But nobody takes that value. It stays on its way after the block, and the next block stops
behind its first statement and answers with it.

* `runBlock_blind` — a block does not see what was done before, apart from a value on its way;
* `runBlock_returningBlock` — a value on its way is seen by a block that would return another one;
* `finishes_runBlock` — without one, a block ends as the rules say of the body of a function;
* `call_pending` — a call takes the value that it leads to, so it leaves none.

So a block does on a used machine what it does on a new one exactly if no value is on its way
(`session_blocks`).
-/

namespace FLang

open Eval Evaluation

/-! ## Machines without a value on its way -/

/-- What a machine has, apart from a value on its way. -/
def Machine.store (m : Machine) : Store :=
  ⟨m.arena, m.scope, m.calls, m.output⟩

theorem Machine.eq_machine_store {m : Machine} (h : m.pending = none) :
    m = m.store.machine none := by
  rw [← h]
  rfl

/-- What a block answers: the value that it returns, if it returns one. -/
def Completion.answer : Completion → Outcome Value
  | .normal => .value .void
  | .returned value => .value value
  | .failed fault => .fault fault

theorem Completion.answer_ne_exhausted (c : Completion) : c.answer ≠ .exhausted := by
  cases c <;> simp [answer]

namespace Session

variable (setting : Setting) (bound : Nat)

/-! ## Blocks -/

/-- Running a block does not see what was done before. -/
theorem runBlock_blind (block : Block) (returnType : ValueType) :
    (runBlock setting bound block returnType).Blind := by
  have hbody : ∀ base base',
      (executeAll setting (invoke setting bound) bound block.statements).MirroredBy base base'
        (executeAll setting (invoke setting bound) bound block.statements) :=
    fun base base' =>
      (linked_mirroring (invoke_alike setting bound) base base').executeAll block.statements
  have hbalanced := (linked_balance setting bound).executeAll block.statements
  refine (Eval.Blind.withScope hbody hbalanced returnType).bind fun _ => ?_
  intro prior prior' m m' h
  simp only [ask, h.pending]
  exact ⟨rfl, h⟩

variable {setting bound}

/-- What a block answers, by what is done in its scope. -/
theorem runBlock_machine {σ σ' : Store} {block : Block} {returnType : ValueType} {c : Completion}
    (h : executeAll setting (invoke setting bound) bound block.statements
      ((σ.enter (some returnType)).machine none) = (c.outcome, σ'.machine c.pending)) :
    runBlock setting bound block returnType (σ.machine none) =
      (c.answer, (σ'.leave σ).machine c.pending) := by
  have hscope := withScope_machine ((linked_balance setting bound).executeAll block.statements) h
  cases c with
  | normal => exact Eval.bind_of_value hscope
  | returned value => exact Eval.bind_of_value hscope
  | failed fault => exact Eval.bind_of_fault hscope

/-- **A block ends as the rules say**, if no value is on its way when it starts. -/
theorem finishes_runBlock {m m' : Machine} (hm : m.pending = none) {block : Block}
    {returnType : ValueType} {outcome : Outcome Value} :
    (outcome ≠ .exhausted ∧ ∃ bound, runBlock setting bound block returnType m = (outcome, m')) ↔
      ∃ c σ, ExecutesAll setting block.statements (m.store.enter (some returnType)) c σ ∧
        outcome = c.answer ∧ m' = (σ.leave m.store).machine c.pending := by
  rw [Machine.eq_machine_store hm]
  generalize m.store = σ
  constructor
  · rintro ⟨houtcome, bound, h⟩
    have hended : (runBlock setting bound block returnType (σ.machine none)).1 ≠ .exhausted := by
      rwa [h]
    have hbalanced := (linked_balance setting bound).executeAll block.statements
    obtain ⟨c, σ', hc, hall⟩ := executeAll_sound (invoke_sound setting bound) block.statements
      (σ.enter (some returnType)) (ended_of_withScope hbalanced (Eval.ended_of_bind hended))
    obtain ⟨rfl, rfl⟩ := Prod.mk.inj (h.symm.trans (runBlock_machine hall))
    exact ⟨c, σ', hc, rfl, rfl⟩
  · rintro ⟨c, σ', hc, rfl, rfl⟩
    obtain ⟨bound, hall⟩ := hc.complete.exists
    exact ⟨c.answer_ne_exhausted, bound, runBlock_machine hall⟩

/-- A block that declares a variable and returns a number. -/
def returningBlock (n : Nat) : Block :=
  .mk ⟨1, 1⟩ [
    .declaration ⟨⟨2, 3⟩, "x", .int, .literal ⟨2, 12⟩ (.int 0)⟩,
    .giveBack ⟨3, 3⟩ (some (.literal ⟨3, 10⟩ (.int n)))]

/-- It returns the number, unless another value is on its way. -/
theorem runBlock_returningBlock {m : Machine} (hm : m.Idle) (n : Nat) :
    (runBlock setting bound (returningBlock n) (.basic .int) m).1 =
      .value (m.pending.getD (.int n)) := by
  obtain ⟨arena, scope, calls, pending, output⟩ := m
  obtain rfl : arena = .empty := hm.arena
  obtain rfl : scope = none := hm.scope
  -- the declaration is executed in both cases, the `return` only in the first
  cases pending with
  | none => rfl
  | some value => rfl

/-! ## Calls -/

/-- **A call takes the value that it leads to**, and drops one that was left before. -/
theorem call_pending {m : Machine} {entry : String} {arguments : List Value} {function : Function}
    (hentry : setting.program.find? entry = some function)
    (hended : (call setting bound entry arguments m).1 ≠ .exhausted) :
    (call setting bound entry arguments m).2.pending = none := by
  have htake : ∀ f : Value → Eval Value, (takeReturned >>= f) m =
      f (m.pending.getD .void) (m.store.machine none) := fun _ => rfl
  simp only [call, hentry, htake, checkCount_eq] at hended ⊢
  by_cases hcount : function.parameters.length = arguments.length
  · rw [if_pos hcount, Eval.ofExcept_ok_bind] at hended ⊢
    obtain ⟨r, σ, -, hinvoke⟩ :=
      invoke_sound setting bound function arguments function.position m.store hended
    rw [hinvoke]
    rfl
  · rw [if_neg hcount]
    rfl

end Session

/-- **Blocks in a session.** After every history of requests, whether they were served or failed:

* a block does what it does on a new machine, and prints the same, for every block exactly if no
  value is on its way;
* then a block ends as the rules say of statements in the scope of a function, and answers with the
  value that it returns, which stays on its way;
* a call of a function of the program leaves no value on its way. -/
theorem session_blocks (setting : Setting) (history : List (Session.Request × Nat)) :
    ((Session.after setting history).pending = none ↔ ∀ bound block returnType,
      (Session.runBlock setting bound block returnType (Session.after setting history)).1 =
        (Session.runBlock setting bound block returnType {}).1 ∧
      ∃ text,
        (Session.runBlock setting bound block returnType
          (Session.after setting history)).2.output =
            (Session.after setting history).output ++ text ∧
        (Session.runBlock setting bound block returnType {}).2.output = text) ∧
    ((Session.after setting history).pending = none → ∀ block returnType outcome m,
      (outcome ≠ .exhausted ∧ ∃ bound,
        Session.runBlock setting bound block returnType (Session.after setting history) =
          (outcome, m)) ↔
      ∃ c σ, ExecutesAll setting block.statements
          ((Session.after setting history).store.enter (some returnType)) c σ ∧
        outcome = c.answer ∧
        m = (σ.leave (Session.after setting history).store).machine c.pending) ∧
    ∀ bound entry arguments function, setting.program.find? entry = some function →
      (Session.call setting bound entry arguments (Session.after setting history)).1 ≠
        .exhausted →
      (Session.call setting bound entry arguments
        (Session.after setting history)).2.pending = none := by
  have hidle := Session.after_idle setting history
  generalize Session.after setting history = m at hidle
  refine ⟨⟨fun hpending bound block returnType => ?_, fun hsame => ?_⟩,
    fun hpending block returnType outcome m' => Session.finishes_runBlock hpending,
    fun bound entry arguments function => Session.call_pending⟩
  · have halike : Machine.Alike "" m.output {} m :=
      ⟨hidle.calls, hpending, "", rfl, by simp⟩
    obtain ⟨houtcome, hafter⟩ := Session.runBlock_blind setting bound block returnType halike
    obtain ⟨text, hnew, hused⟩ := hafter.output
    exact ⟨houtcome, text, hused, by simpa using hnew⟩
  · -- two blocks that return different numbers cannot both answer with the value on its way
    have hanswer : ∀ n : Nat, m.pending.getD (.int n) = .int n := by
      intro n
      have hblock := (hsame 0 (Session.returningBlock n) (.basic .int)).1
      rw [Session.runBlock_returningBlock hidle,
        Session.runBlock_returningBlock Machine.idle_new] at hblock
      exact Outcome.value.inj hblock
    cases hpending : m.pending with
    | none => rfl
    | some value =>
      have hzero := hanswer 0
      have hone := hanswer 1
      rw [hpending] at hzero hone
      cases hzero.symm.trans hone

/-- After a block that returns a number, a block that would return another one answers with the
first. -/
theorem returningBlock_answers_late :
    (Session.runBlock ⟨⟨[]⟩, .standard, 100⟩ 3 (Session.returningBlock 2) (.basic .int)
      (Session.after ⟨⟨[]⟩, .standard, 100⟩
        [(.runBlock (Session.returningBlock 1) (.basic .int), 3)])).1 = .value (.int 1) ∧
    (Session.runBlock ⟨⟨[]⟩, .standard, 100⟩ 3 (Session.returningBlock 2) (.basic .int) {}).1 =
      .value (.int 2) :=
  ⟨rfl, rfl⟩

end FLang
