import FLang.Proofs.Runs.Moments

/-!
# Computations that do not end

A bound on loops and calls is reached in two ways: a loop has too many turns, or calls are nested
too deep. So if something without loops does not end within a bound, then that many calls are
nested.

* `Statement.hasLoop` — whether there is a loop in a tree;
* `Moment.Stalls` — a call comes up that does not end;
* `evaluate_stalls`, `execute_stalls` — if an expression, or a statement without loops, does not
  end, then it is because of such a call;
* `invoke_exhausted` — a call that does not end within a bound comes to a moment at which that many
  further calls are active. In particular no call escapes the moments of a run.
-/

namespace FLang

open Eval Evaluation

/-! ## Loops in a tree -/

mutual

/-- Whether there is a loop in a statement. -/
def Statement.hasLoop : Statement → Bool
  | .declaration _ => false
  | .assignment .. => false
  | .conditional _ _ thenBlock none => thenBlock.hasLoop
  | .conditional _ _ thenBlock (some elseBlock) => thenBlock.hasLoop || elseBlock.hasLoop
  | .loop .. => true
  | .choice _ _ _ arms => Case.anyLoop arms
  | .giveBack .. => false
  | .call .. => false

/-- Whether there is a loop in a block. -/
def Block.hasLoop : Block → Bool
  | .mk _ statements => Statement.anyLoop statements

/-- Whether there is a loop in one of some statements. -/
def Statement.anyLoop : List Statement → Bool
  | [] => false
  | first :: rest => first.hasLoop || Statement.anyLoop rest

/-- Whether there is a loop in the output of one of some cases. -/
def Case.anyLoop : List Case → Bool
  | [] => false
  | .test _ _ _ output :: rest => output.hasLoop || Case.anyLoop rest
  | .fallback _ output :: rest => output.hasLoop || Case.anyLoop rest

/-- Whether there is a loop in what a case does. -/
def CaseOutput.hasLoop : CaseOutput → Bool
  | .expression _ => false
  | .block block => block.hasLoop

end

@[simp] theorem Block.hasLoop_eq (b : Block) : b.hasLoop = Statement.anyLoop b.statements := by
  cases b
  rw [Block.hasLoop, Block.statements]

/-! ## Computations that do not end -/

/-- A computation that always ends. -/
def Eval.Ends {α : Type} (x : Eval α) : Prop :=
  ∀ m, (x m).1 ≠ .exhausted

section
variable {α β : Type} {x : Eval α} {f : α → Eval β} {m : Machine}

/-- If a sequence does not end, then its first part does not, or what follows it does not. -/
theorem Eval.exhausted_cases (h : ((x >>= f) m).1 = .exhausted) :
    (x m).1 = .exhausted ∨ ∃ a m', x m = (.value a, m') ∧ (f a m').1 = .exhausted := by
  rcases hxm : x m with ⟨a | fault | _, m'⟩
  · rw [Eval.bind_of_value hxm] at h
    exact .inr ⟨a, m', rfl, h⟩
  · rw [Eval.bind_of_fault hxm] at h
    cases h
  · exact .inl rfl

/-- If the second part always ends, the first did not. -/
theorem Eval.exhausted_first (hf : ∀ a, (f a).Ends) (h : ((x >>= f) m).1 = .exhausted) :
    (x m).1 = .exhausted := by
  obtain hx | ⟨a, m', -, ha⟩ := Eval.exhausted_cases h
  · exact hx
  · exact absurd ha (hf a m')

/-- If the first part always ends, it was the second that did not. -/
theorem Eval.exhausted_second (hx : x.Ends) (h : ((x >>= f) m).1 = .exhausted) :
    ∃ a m', x m = (.value a, m') ∧ (f a m').1 = .exhausted :=
  (Eval.exhausted_cases h).resolve_left (hx m)

theorem Eval.Ends.bind (hx : x.Ends) (hf : ∀ a, (f a).Ends) : (x >>= f).Ends := by
  intro m h
  obtain ⟨a, m', -, ha⟩ := Eval.exhausted_second hx h
  exact hf a m' ha

theorem Eval.Ends.ofExcept (result : Except Fault α) : (Eval.ofExcept result).Ends := by
  cases result <;> exact nofun

/-- Changing variables ends. -/
theorem Eval.Ends.updateArena (f : Arena → Option Nat → Except Fault Arena) :
    (Eval.updateArena f).Ends := by
  intro m h
  simp only [Eval.updateArena] at h
  split at h <;> cases h

theorem Eval.Ends.giveBack (value : Value) (position : Position) :
    (Eval.giveBack value position).Ends := by
  intro m h
  rw [Eval.giveBack_eq] at h
  split at h
  · cases h
  · split at h <;> cases h

/-- A scope does not keep what is done in it from ending. -/
theorem Eval.exhausted_withScope {returnType : Option ValueType}
    (h : (withScope returnType x m).1 = .exhausted) :
    (x (m.opened returnType)).1 = .exhausted := by
  simp only [withScope] at h
  split at h
  · exact h
  · cases h

end

/-- Always ending, as a relation that looks at the first computation only. -/
def ending : Congruence where
  rel x _ := x.Ends
  pure _ := nofun
  fail _ := nofun
  bind := .bind
  readVariable _ _ m := Eval.Ends.ofExcept _ m
  declare _ _ _ _ := .updateArena _
  assign _ _ _ := .updateArena _
  emit _ := nofun
  giveBack := .giveBack
  isReturning := nofun
  takeReturned := nofun
  nested h _ hexhausted := h _ (Eval.exhausted_withScope hexhausted)

/-! ## Calls that do not end -/

/-- A call comes up that does not end within a bound, while no other call has become active. -/
def Moment.Stalls (setting : Setting) (bound : Nat) (moment : Moment) : Prop :=
  ∃ function ∈ setting.program.functions, ∃ values position m,
    Moment.Reaches setting moment ⟨.call function values position, m⟩ ∧
    m.calls = moment.machine.calls ∧
    (invoke setting bound function values position m).1 = .exhausted

section
variable {setting : Setting} {bound : Nat}

/-- What a part waits for, the whole waits for. -/
theorem Moment.Stalls.part {moment moment' : Moment} (hpart : moment.Enters setting moment')
    (htask : ∀ function values position, moment.task ≠ .call function values position)
    (h : moment'.Stalls setting bound) : moment.Stalls setting bound := by
  obtain ⟨function, hmem, values, position, m, hreaches, hcalls, hexhausted⟩ := h
  have hsame : moment'.machine.calls = moment.machine.calls := by
    refine hpart.calls.resolve_right ?_
    rintro ⟨callee, arguments, place, hcall, -⟩
    exact htask callee arguments place hcall
  exact ⟨function, hmem, values, position, m, hreaches.head hpart, hcalls.trans hsame, hexhausted⟩

/-- Only the expression of a condition can fail to end. -/
theorem condition_exhausted {invoke : Invoke} {construct : String} {e : Expression} {m : Machine}
    (h : (condition setting invoke construct e m).1 = .exhausted) :
    (evaluate setting invoke e m).1 = .exhausted := by
  rw [condition_eq] at h
  exact Eval.exhausted_first (fun _ => ending.ofExcept _) h

mutual

/-- **An expression that does not end makes a call that does not.** -/
theorem evaluate_stalls : ∀ (e : Expression) (m : Machine),
    (evaluate setting (invoke setting bound) e m).1 = .exhausted →
      Moment.Stalls setting bound ⟨.evaluate e, m⟩
  | .literal _ value, m, h => by
    rw [evaluate] at h
    cases h
  | .variable position name, m, h => by
    rw [evaluate] at h
    exact absurd h (ending.readVariable name position m)
  | .negate position operand, m, h => by
    rw [evaluate] at h
    have hoperand := Eval.exhausted_first (fun _ => ending.ofExcept _) h
    exact (evaluate_stalls operand m hoperand).part .negated nofun
  | .cast position operand target, m, h => by
    rw [evaluate] at h
    have hoperand := Eval.exhausted_first (fun _ => ending.ofExcept _) h
    exact (evaluate_stalls operand m hoperand).part .casted nofun
  | .binary position (.logical op) left right, m, h => by
    rw [evaluate, logical_eq] at h
    obtain hleft | ⟨a, m₁, hleft, h⟩ := Eval.exhausted_cases h
    · exact (evaluate_stalls left m hleft).part .left nofun
    rcases hoperand : op.operand position a with fault | first
    · rw [hoperand] at h
      cases h
    obtain rfl := Logical.eq_of_operand hoperand
    rw [hoperand, Eval.ofExcept_ok_bind] at h
    -- the right operand is a part only if the left one does not decide
    by_cases hdecisive : first = op.decisive
    · rw [if_pos hdecisive] at h
      cases h
    · rw [if_neg hdecisive] at h
      obtain rfl := Bool.eq_not_of_ne hdecisive
      have hright := Eval.exhausted_first (fun _ => ending.ofExcept _) h
      exact (evaluate_stalls right m₁ hright).part (.right ⟨bound, hleft⟩ rfl) nofun
  | .binary position (.relation op) left right, m, h => by
    rw [evaluate] at h
    obtain hleft | ⟨a, m₁, hleft, h⟩ := Eval.exhausted_cases h
    · exact (evaluate_stalls left m hleft).part .left nofun
    have hright := Eval.exhausted_first
      (fun _ => (ending.ofExcept _).bind fun _ => ending.pure _) h
    exact (evaluate_stalls right m₁ hright).part (.right ⟨bound, hleft⟩ trivial) nofun
  | .binary position (.arithmetic op) left right, m, h => by
    rw [evaluate] at h
    obtain hleft | ⟨a, m₁, hleft, h⟩ := Eval.exhausted_cases h
    · exact (evaluate_stalls left m hleft).part .left nofun
    have hright := Eval.exhausted_first (fun _ => ending.ofExcept _) h
    exact (evaluate_stalls right m₁ hright).part (.right ⟨bound, hleft⟩ trivial) nofun
  | .call position name es, m, h => by
    rw [evaluate, callNamed_eq] at h
    rcases hcallee : setting.callee position name es.length with fault | callee
    · rw [hcallee] at h
      cases h
    rw [hcallee, Eval.ofExcept_ok_bind] at h
    obtain harguments | ⟨values, m₁, hvalues, h⟩ := Eval.exhausted_cases h
    · exact (evaluateAll_stalls es m harguments).part (.arguments hcallee) nofun
    cases callee with
    | embedded function => exact absurd h (ending.callEmbedded function values position m₁)
    | declared function =>
      have hcall : Moment.Stalls setting bound ⟨.call function values position, m₁⟩ :=
        ⟨function, Setting.mem_of_callee hcallee, values, position, m₁, .refl, rfl, h⟩
      exact hcall.part (.called hcallee ⟨bound, hvalues⟩) nofun

/-- One of the arguments does not end. -/
theorem evaluateAll_stalls : ∀ (es : List Expression) (m : Machine),
    (evaluateAll setting (invoke setting bound) es m).1 = .exhausted →
      Moment.Stalls setting bound ⟨.evaluateAll es, m⟩
  | [], m, h => by
    rw [evaluateAll] at h
    cases h
  | e :: es, m, h => by
    rw [evaluateAll] at h
    obtain hfirst | ⟨a, m₁, hfirst, h⟩ := Eval.exhausted_cases h
    · exact (evaluate_stalls e m hfirst).part .firstValue nofun
    have hrest := Eval.exhausted_first (fun _ => ending.pure _) h
    exact (evaluateAll_stalls es m₁ hrest).part (.otherValues ⟨bound, hfirst⟩) nofun

end

theorem declareVariable_exhausted {invoke : Invoke} {d : Declaration} {m : Machine}
    (h : (declareVariable setting invoke d m).1 = .exhausted) :
    (evaluate setting invoke d.initializer m).1 = .exhausted :=
  Eval.exhausted_first (fun _ => ending.declare _ _ _ _) h

/-- One of the declarations does not end. -/
theorem declareVariables_stalls (ds : List Declaration) (m : Machine)
    (h : (declareVariables setting (invoke setting bound) ds m).1 = .exhausted) :
    Moment.Stalls setting bound ⟨.declareAll ds, m⟩ := by
  induction ds generalizing m with
  | nil => cases h
  | cons d ds ih =>
    obtain hfirst | ⟨_, m₁, hfirst, h⟩ := Eval.exhausted_cases h
    · exact (evaluate_stalls _ m (declareVariable_exhausted hfirst)).part .initializer nofun
    · exact (ih m₁ h).part (.otherDeclarations ⟨bound, hfirst⟩) nofun

/-- Only a subject that is an expression can fail to end. -/
theorem choiceSubject_exhausted {invoke : Invoke} {guards : List Declaration}
    {subject : Option Expression} {m : Machine}
    (h : (choiceSubject setting invoke guards subject m).1 = .exhausted) :
    ∃ e, subject = some e ∧ (evaluate setting invoke e m).1 = .exhausted := by
  rcases subject with _ | e
  · have hends : (choiceSubject setting invoke guards none).Ends := by
      rcases guards with _ | ⟨d, _ | ⟨d', ds⟩⟩
      · exact ending.pure none
      · exact ending.map _ (ending.readVariable _ _)
      · exact ending.pure none
    exact absurd h (hends m)
  · exact ⟨e, rfl, Eval.exhausted_first (fun _ => ending.pure _) h⟩

/-- Only the expression of a test can fail to end, and there is a subject to compare with. -/
theorem testSucceeds_exhausted {invoke : Invoke} {subject : Option Value} {position : Position}
    {relation : Option Relation} {e : Expression} {m : Machine}
    (h : (testSucceeds setting invoke subject position relation e m).1 = .exhausted) :
    (relation.isSome → subject.isSome) ∧ (evaluate setting invoke e m).1 = .exhausted := by
  by_cases hsubject : relation.isSome → subject.isSome
  · rw [testSucceeds_eq setting invoke hsubject] at h
    exact ⟨hsubject, Eval.exhausted_first (fun _ => ending.ofExcept _) h⟩
  · obtain ⟨op, rfl, rfl⟩ := exists_of_unmatched hsubject
    cases h

mutual

/-- **A statement without loops that does not end makes a call that does not.** -/
theorem execute_stalls : ∀ (s : Statement) (m : Machine), s.hasLoop = false →
    (execute setting (invoke setting bound) bound s m).1 = .exhausted →
      Moment.Stalls setting bound ⟨.execute s, m⟩
  | .declaration d, m, _, h => by
    rw [execute] at h
    exact (evaluate_stalls _ m (declareVariable_exhausted h)).part .declaration nofun
  | .assignment position name e, m, _, h => by
    rw [execute] at h
    have hvalue := Eval.exhausted_first (fun _ => ending.assign _ _ _) h
    exact (evaluate_stalls e m hvalue).part .assignment nofun
  | .conditional position test thenBlock none, m, hloop, h => by
    rw [execute] at h
    obtain htest | ⟨holds, m₁, htest, h⟩ := Eval.exhausted_cases h
    · exact (evaluate_stalls test m (condition_exhausted htest)).part .ifTest nofun
    cases holds with
    | true =>
      exact (executeBlock_stalls thenBlock m₁ hloop h).part (.thenBlock ⟨bound, htest⟩) nofun
    | false => cases h
  | .conditional position test thenBlock (some elseBlock), m, hloop, h => by
    rw [Statement.hasLoop, Bool.or_eq_false_iff] at hloop
    rw [execute] at h
    obtain htest | ⟨holds, m₁, htest, h⟩ := Eval.exhausted_cases h
    · exact (evaluate_stalls test m (condition_exhausted htest)).part .ifTest nofun
    cases holds with
    | true =>
      exact (executeBlock_stalls thenBlock m₁ hloop.1 h).part (.thenBlock ⟨bound, htest⟩) nofun
    | false =>
      exact (executeBlock_stalls elseBlock m₁ hloop.2 h).part (.elseBlock ⟨bound, htest⟩) nofun
  -- only a loop can fail to end by itself, and there is none
  | .loop position test (.mk place body), m, hloop, _ => by
    cases hloop
  | .choice position guards subject arms, m, hloop, h => by
    obtain ⟨_, second, _, _, hchoice⟩ | ⟨hone, hchoice⟩ := execute_choice setting
      (invoke setting bound) bound position guards subject arms
    · rw [hchoice] at h
      cases h
    rw [hchoice] at h
    replace h := Eval.exhausted_withScope h
    suffices hstalls : Moment.Stalls setting bound ⟨.choose guards subject arms, m.opened none⟩ from
      hstalls.part (.choice hone) nofun
    -- the parts of a choice are done one after the other: the first that does not end is the one
    obtain hguards | ⟨_, m₁, hguards, h⟩ := Eval.exhausted_cases h
    · exact (declareVariables_stalls guards _ hguards).part .guards nofun
    obtain hsubject | ⟨value, m₂, hsubject, h⟩ := Eval.exhausted_cases h
    · obtain ⟨e, rfl, he⟩ := choiceSubject_exhausted hsubject
      exact (evaluate_stalls e m₁ he).part (.subject ⟨bound, hguards⟩) nofun
    obtain hselect | ⟨found, m₃, hselect, h⟩ := Eval.exhausted_cases h
    · exact (executeFirstMatch_stalls value arms m₂ hloop hselect).part
        (.select ⟨bound, hguards⟩ ⟨bound, hsubject⟩) nofun
    cases found with
    | true => cases h
    | false =>
      exact (executeFallback_stalls arms m₃ hloop h).part
        (.fallBack ⟨bound, hguards⟩ ⟨bound, hsubject⟩ ⟨bound, hselect⟩) nofun
  | .giveBack position none, m, _, h => by
    rw [execute] at h
    exact absurd h (ending.giveBack _ _ m)
  | .giveBack position (some e), m, _, h => by
    rw [execute] at h
    have hvalue := Eval.exhausted_first (fun _ => ending.giveBack _ _) h
    exact (evaluate_stalls e m hvalue).part .returned nofun
  | .call position name es, m, _, h => by
    rw [execute] at h
    have hcall : (evaluate setting (invoke setting bound) (.call position name es) m).1 =
        .exhausted := by
      rw [evaluate]
      exact Eval.exhausted_first (fun _ => ending.pure _) h
    exact (evaluate_stalls _ m hcall).part .callStatement nofun

/-- A block without loops that does not end has come to a statement that does not. -/
theorem executeBlock_stalls : ∀ (b : Block) (m : Machine), b.hasLoop = false →
    (executeBlock setting (invoke setting bound) bound b m).1 = .exhausted →
      Moment.Stalls setting bound ⟨.executeBlock b, m⟩
  | .mk position ss, m, hloop, h => by
    rw [executeBlock] at h
    exact (executeAll_stalls ss _ hloop (Eval.exhausted_withScope h)).part .block nofun

/-- One of the statements does not end, and those in front of it did. -/
theorem executeAll_stalls : ∀ (ss : List Statement) (m : Machine),
    Statement.anyLoop ss = false →
    (executeAll setting (invoke setting bound) bound ss m).1 = .exhausted →
      Moment.Stalls setting bound ⟨.executeAll ss, m⟩
  | [], m, _, h => by
    rw [executeAll] at h
    cases h
  | s :: ss, m, hloop, h => by
    rw [Statement.anyLoop, Bool.or_eq_false_iff] at hloop
    rw [executeAll] at h
    obtain hfirst | ⟨_, m₁, hfirst, h⟩ := Eval.exhausted_cases h
    · exact (execute_stalls s m hloop.1 hfirst).part .firstStatement nofun
    rw [Eval.isReturning_bind] at h
    rcases hpending : m₁.pending with _ | value
    · simp only [hpending] at h
      exact (executeAll_stalls ss m₁ hloop.2 h).part
        (.otherStatements ⟨bound, hfirst⟩ hpending) nofun
    · simp only [hpending] at h
      cases h

/-- A test does not end, or what the selected case does. -/
theorem executeFirstMatch_stalls (subject : Option Value) : ∀ (arms : List Case) (m : Machine),
    Case.anyLoop arms = false →
    (executeFirstMatch setting (invoke setting bound) bound subject arms m).1 = .exhausted →
      Moment.Stalls setting bound ⟨.select subject arms, m⟩
  | [], m, _, h => by
    rw [executeFirstMatch] at h
    cases h
  | .fallback position output :: arms, m, hloop, h => by
    rw [Case.anyLoop, Bool.or_eq_false_iff] at hloop
    rw [executeFirstMatch] at h
    exact (executeFirstMatch_stalls subject arms m hloop.2 h).part .skipped nofun
  | .test position relation e output :: arms, m, hloop, h => by
    rw [Case.anyLoop, Bool.or_eq_false_iff] at hloop
    rw [executeFirstMatch] at h
    obtain htest | ⟨succeeds, m₁, htest, h⟩ := Eval.exhausted_cases h
    · obtain ⟨hsubject, he⟩ := testSucceeds_exhausted htest
      exact (evaluate_stalls e m he).part (.caseTest hsubject) nofun
    cases succeeds with
    | true =>
      have houtput := Eval.exhausted_first (fun _ => ending.pure _) h
      exact (executeOutput_stalls output m₁ hloop.1 houtput).part (.selected ⟨bound, htest⟩) nofun
    | false =>
      exact (executeFirstMatch_stalls subject arms m₁ hloop.2 h).part
        (.otherCases ⟨bound, htest⟩) nofun

theorem executeFallback_stalls : ∀ (arms : List Case) (m : Machine), Case.anyLoop arms = false →
    (executeFallback setting (invoke setting bound) bound arms m).1 = .exhausted →
      Moment.Stalls setting bound ⟨.fallBack arms, m⟩
  | [], m, _, h => by
    rw [executeFallback] at h
    cases h
  | .fallback position output :: arms, m, hloop, h => by
    rw [Case.anyLoop, Bool.or_eq_false_iff] at hloop
    rw [executeFallback] at h
    exact (executeOutput_stalls output m hloop.1 h).part .fallbackOutput nofun
  | .test position relation e output :: arms, m, hloop, h => by
    rw [Case.anyLoop, Bool.or_eq_false_iff] at hloop
    rw [executeFallback] at h
    exact (executeFallback_stalls arms m hloop.2 h).part .notFallback nofun

theorem executeOutput_stalls : ∀ (output : CaseOutput) (m : Machine), output.hasLoop = false →
    (executeOutput setting (invoke setting bound) bound output m).1 = .exhausted →
      Moment.Stalls setting bound ⟨.produce output, m⟩
  | .block block, m, hloop, h => by
    rw [executeOutput] at h
    exact (executeBlock_stalls block m hloop h).part .outputBlock nofun
  | .expression e, m, _, h => by
    rw [executeOutput] at h
    have hvalue := Eval.exhausted_first (fun value => ?_) h
    · exact (evaluate_stalls e m hvalue).part .outputValue nofun
    · by_cases hvoid : value = .void
      · rw [if_pos hvoid]
        exact ending.pure ()
      · rw [if_neg hvoid]
        exact ending.giveBack _ _

end

/-- **A call that does not end within a bound nests that many calls**, if there are no loops. -/
theorem invoke_exhausted (hloops : ∀ f ∈ setting.program.functions, f.body.hasLoop = false)
    (bound : Nat) {function : Function} (hmem : function ∈ setting.program.functions)
    {values : List Value} {position : Position} {m : Machine}
    (h : (invoke setting bound function values position m).1 = .exhausted) :
    ∃ moment, Moment.Reaches setting ⟨.call function values position, m⟩ moment ∧
      moment.machine.calls.active.length = m.calls.active.length + bound := by
  induction bound generalizing function values position m with
  | zero => exact ⟨_, .refl, rfl⟩
  | succ bound ih =>
    rw [invoke_succ] at h
    by_cases hdepth : m.calls.depth function.name ≥ setting.maxDepth
    · rw [if_pos hdepth] at h
      cases h
    rw [if_neg hdepth] at h
    have hscope := Eval.exhausted_first (fun _ => ending.finishCall function) h
    obtain ⟨_, m₁, hbind, hbody⟩ := Eval.exhausted_second
      (ending.bindParameters _ _ _ _ _) (Eval.exhausted_withScope hscope)
    have hloop : Statement.anyLoop function.body.statements = false :=
      (Block.hasLoop_eq _).symm.trans (hloops function hmem)
    -- the body waits for a call, and that call nests as many as one bound less allows
    have hstalls := (executeAll_stalls _ m₁ hloop hbody).part (.body hbind) nofun
    obtain ⟨callee, hcallee, arguments, place, m₂, hreaches, hcalls, hcall⟩ := hstalls
    obtain ⟨moment, hmoment, hlength⟩ := ih hcallee hcall
    refine ⟨moment, (hreaches.head (.entered (Nat.lt_of_not_ge hdepth))).trans hmoment, ?_⟩
    -- this call is one more than those that were active before
    have hpush : m₂.calls.active.length = m.calls.active.length + 1 := by
      rw [hcalls]
      rfl
    omega

end

end FLang
