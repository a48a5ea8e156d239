import FLang.Proofs.Structured.Machines

/-!
# What the evaluator does is allowed by the rules

On the machine of a store, when no value is on its way, a computation that ends within its bound
does what the rules say: an expression leaves no value on its way, and a statement leaves the one
that it returns.

* `Eval.Obeys`, `Eval.Performs` — a computation does what a relation says, if it ends;
* `evaluate_sound`, `execute_sound` — expressions and statements follow the rules if calls do;
* `invoke_sound` — calls follow the rules, by induction on the bound.
-/

namespace FLang

open Eval Evaluation

/-- A computation that ends does what a relation says, and leaves no value on its way. -/
def Eval.Obeys {α : Type} (x : Eval α) (R : Store → Except Fault α → Store → Prop) : Prop :=
  ∀ σ : Store, (x (σ.machine none)).1 ≠ .exhausted →
    ∃ r σ', R σ r σ' ∧ x (σ.machine none) = (.ofExcept r, σ'.machine none)

/-- A computation that ends does what a relation says, and leaves the value that it returns. -/
def Eval.Performs (x : Eval Unit) (R : Store → Completion → Store → Prop) : Prop :=
  ∀ σ : Store, (x (σ.machine none)).1 ≠ .exhausted →
    ∃ c σ', R σ c σ' ∧ x (σ.machine none) = (c.outcome, σ'.machine c.pending)

/-- Calls follow the rules, if they end within a bound. -/
def Setting.CallsSound (setting : Setting) (bound : Nat) : Prop :=
  ∀ function values position, (invoke setting bound function values position).Obeys
    (Calls setting function values position)

section
variable {α β : Type} {x : Eval α} {f : α → Eval β}

/-- The first part of a sequence that ends has ended. -/
theorem Eval.ended_of_bind {m : Machine} (h : ((x >>= f) m).1 ≠ .exhausted) :
    (x m).1 ≠ .exhausted := by
  rcases hx : x m with ⟨a | fault | _, m'⟩
  · exact nofun
  · exact nofun
  · rw [Eval.bind_of_exhausted hx] at h
    exact absurd rfl h

/-- The first part of a sequence fails, or the rest follows it. -/
theorem Eval.Obeys.peel {R : Store → Except Fault α → Store → Prop} (hx : x.Obeys R) {σ : Store}
    (h : ((x >>= f) (σ.machine none)).1 ≠ .exhausted) :
    (∃ fault σ', R σ (.error fault) σ' ∧
      (x >>= f) (σ.machine none) = (.fault fault, σ'.machine none)) ∨
    ∃ a σ', R σ (.ok a) σ' ∧ (x >>= f) (σ.machine none) = f a (σ'.machine none) := by
  obtain ⟨fault | a, σ', hR, heq⟩ := hx σ (Eval.ended_of_bind h)
  · exact .inl ⟨fault, σ', hR, Eval.bind_of_fault heq⟩
  · exact .inr ⟨a, σ', hR, Eval.bind_of_value heq⟩

/-- A step that does not look at the machine follows. -/
theorem Eval.Obeys.bind_ofExcept {R : Store → Except Fault α → Store → Prop} (hx : x.Obeys R)
    (f : α → Except Fault β) :
    (x >>= fun a => Eval.ofExcept (f a)).Obeys fun σ r σ' => ∃ r', R σ r' σ' ∧ r'.bind f = r := by
  intro σ h
  obtain ⟨r, σ', hR, heq⟩ := hx σ (Eval.ended_of_bind h)
  exact ⟨r.bind f, σ', ⟨r, hR, rfl⟩, Eval.bind_ofExcept heq f⟩

end

section
variable {setting : Setting} {bound : Nat}

/-! ## Expressions -/

mutual

/-- **The evaluation of an expression follows the rules**, if calls do. -/
theorem evaluate_sound (hcalls : setting.CallsSound bound) : ∀ e : Expression,
    (evaluate setting (invoke setting bound) e).Obeys (Evaluates setting e)
  | .literal position value => by
    intro σ _
    rw [evaluate]
    exact ⟨_, σ, .literal, rfl⟩
  | .variable position name => by
    intro σ _
    rw [evaluate]
    exact ⟨_, σ, .variable, Eval.ofExcept_apply _ _⟩
  | .negate position operand => by
    intro σ h
    rw [evaluate] at h ⊢
    obtain ⟨r, σ', hoperand, heq⟩ := evaluate_sound hcalls operand σ (Eval.ended_of_bind h)
    exact ⟨_, σ', .negate hoperand, Eval.bind_ofExcept heq _⟩
  | .cast position operand target => by
    intro σ h
    rw [evaluate] at h ⊢
    obtain ⟨r, σ', hoperand, heq⟩ := evaluate_sound hcalls operand σ (Eval.ended_of_bind h)
    exact ⟨_, σ', .cast hoperand, Eval.bind_ofExcept heq _⟩
  | .binary position (.logical op) left right => by
    intro σ h
    rw [evaluate, logical_eq] at h ⊢
    obtain ⟨fault, σ', hleft, heq⟩ | ⟨a, σ₁, hleft, heq⟩ := (evaluate_sound hcalls left).peel h
    · exact ⟨_, σ', .leftFault hleft, heq⟩
    rw [heq] at h ⊢
    rcases hoperand : op.operand position a with fault | first
    · exact ⟨_, σ₁, .operandFault hleft hoperand, rfl⟩
    -- the left operand has a truth value, which decides or not
    rw [hoperand, Eval.ofExcept_ok_bind] at h
    obtain rfl := Logical.eq_of_operand hoperand
    by_cases hdecisive : first = op.decisive
    · subst hdecisive
      refine ⟨_, σ₁, .decided hleft, ?_⟩
      rw [Eval.ofExcept_ok_bind, if_pos rfl]
      rfl
    · rw [if_neg hdecisive] at h
      rw [Eval.ofExcept_ok_bind, if_neg hdecisive]
      obtain rfl := Bool.eq_not_of_ne hdecisive
      obtain ⟨r, σ₂, hright, heq⟩ := evaluate_sound hcalls right σ₁ (Eval.ended_of_bind h)
      exact ⟨_, σ₂, .undecided hleft hright, Eval.bind_ofExcept heq _⟩
  | .binary position (.relation op) left right => by
    intro σ h
    rw [evaluate] at h ⊢
    simp only [Eval.ofExcept_bind_pure] at h ⊢
    obtain ⟨fault, σ', hleft, heq⟩ | ⟨a, σ₁, hleft, heq⟩ := (evaluate_sound hcalls left).peel h
    · exact ⟨_, σ', .leftFault hleft, heq⟩
    rw [heq] at h ⊢
    obtain ⟨r, σ₂, hright, heq⟩ := evaluate_sound hcalls right σ₁ (Eval.ended_of_bind h)
    exact ⟨_, σ₂, .relation hleft hright, Eval.bind_ofExcept heq _⟩
  | .binary position (.arithmetic op) left right => by
    intro σ h
    rw [evaluate] at h ⊢
    obtain ⟨fault, σ', hleft, heq⟩ | ⟨a, σ₁, hleft, heq⟩ := (evaluate_sound hcalls left).peel h
    · exact ⟨_, σ', .leftFault hleft, heq⟩
    rw [heq] at h ⊢
    obtain ⟨r, σ₂, hright, heq⟩ := evaluate_sound hcalls right σ₁ (Eval.ended_of_bind h)
    exact ⟨_, σ₂, .arithmetic hleft hright, Eval.bind_ofExcept heq _⟩
  | .call position name es => by
    intro σ h
    rw [evaluate, callNamed_eq] at h ⊢
    rcases hcallee : setting.callee position name es.length with fault | callee
    · exact ⟨_, σ, .unknown hcallee, rfl⟩
    rw [hcallee, Eval.ofExcept_ok_bind] at h
    rw [Eval.ofExcept_ok_bind]
    obtain ⟨fault, σ', hvalues, heq⟩ | ⟨values, σ₁, hvalues, heq⟩ :=
      (evaluateAll_sound hcalls es).peel h
    · exact ⟨_, σ', .argumentFault hcallee hvalues, heq⟩
    rw [heq] at h ⊢
    cases callee with
    | embedded function =>
      exact ⟨_, _, .embedded hcallee hvalues, callEmbedded_machine σ₁ function values position⟩
    | declared function =>
      obtain ⟨r, σ₂, hcall, heq⟩ := hcalls function values position σ₁ h
      exact ⟨r, σ₂, .declared hcallee hvalues hcall, heq⟩

/-- Arguments are evaluated by the rules, one after the other. -/
theorem evaluateAll_sound (hcalls : setting.CallsSound bound) : ∀ es : List Expression,
    (evaluateAll setting (invoke setting bound) es).Obeys (EvaluatesAll setting es)
  | [] => by
    intro σ _
    rw [evaluateAll]
    exact ⟨_, σ, .nil, rfl⟩
  | e :: es => by
    intro σ h
    rw [evaluateAll] at h ⊢
    obtain ⟨fault, σ', hfirst, heq⟩ | ⟨a, σ₁, hfirst, heq⟩ := (evaluate_sound hcalls e).peel h
    · exact ⟨_, σ', .firstFault hfirst, heq⟩
    rw [heq] at h ⊢
    obtain ⟨r, σ₂, hrest, heq⟩ := evaluateAll_sound hcalls es σ₁ (Eval.ended_of_bind h)
    exact ⟨_, σ₂, .cons hfirst hrest, Eval.bind_pure_apply heq _⟩

end

/-! ## Statements -/

/-- A condition fails, or what follows it depends on its truth value. -/
theorem condition_peel {α : Type} {f : Bool → Eval α} {construct : String} {e : Expression}
    (he : (evaluate setting (invoke setting bound) e).Obeys (Evaluates setting e)) {σ : Store}
    (h : ((condition setting (invoke setting bound) construct e >>= f) (σ.machine none)).1 ≠
      .exhausted) :
    (∃ r fault σ', Evaluates setting e σ r σ' ∧
      r.bind (Value.truth construct e.position) = .error fault ∧
      (condition setting (invoke setting bound) construct e >>= f) (σ.machine none) =
        (.fault fault, σ'.machine none)) ∨
    ∃ b σ', Evaluates setting e σ (.ok (.bool b)) σ' ∧
      (condition setting (invoke setting bound) construct e >>= f) (σ.machine none) =
        f b (σ'.machine none) := by
  rw [condition_eq] at h ⊢
  obtain ⟨fault, σ', ⟨r, hr, htruth⟩, heq⟩ | ⟨b, σ', ⟨r, hr, htruth⟩, heq⟩ :=
    (he.bind_ofExcept (Value.truth construct e.position)).peel h
  · exact .inl ⟨r, fault, σ', hr, htruth, heq⟩
  · obtain rfl := Value.eq_of_truth htruth
    exact .inr ⟨b, σ', hr, heq⟩

/-- **A loop follows the rules for each of its rounds**, by induction on the bound of rounds. -/
theorem iterate_sound {test : Expression} {body : List Statement}
    (htest : (evaluate setting (invoke setting bound) test).Obeys (Evaluates setting test))
    (hbody : (executeAll setting (invoke setting bound) bound body).Performs
      (ExecutesAll setting body)) (count : Nat) :
    Eval.Performs
      (iterate (condition setting (invoke setting bound) "while" test)
        (executeAll setting (invoke setting bound) bound body) count)
      (Repeats setting test body) := by
  induction count with
  | zero =>
    -- a loop without a turn left has not ended
    intro σ h
    exact absurd rfl h
  | succ count ih =>
    intro σ h
    rw [Eval.iterate_succ] at h ⊢
    obtain ⟨r, fault, σ', hr, htruth, heq⟩ | ⟨b, σ₁, hb, heq⟩ := condition_peel htest h
    · exact ⟨_, σ', .fault hr htruth, heq⟩
    rw [heq] at h ⊢
    cases b with
    | false => exact ⟨.normal, σ₁, .done hb, rfl⟩
    | true =>
      rw [if_pos rfl] at h ⊢
      obtain ⟨c, σ₂, hc, heq⟩ := hbody σ₁ (Eval.ended_of_bind h)
      by_cases hnormal : c = .normal
      · subst hnormal
        have hnext := Eval.unless_normal (y := iterate
          (condition setting (invoke setting bound) "while" test)
          (executeAll setting (invoke setting bound) bound body) count) heq
        obtain ⟨c, σ₃, hrest, heq⟩ := ih σ₂ fun hex => h ((congrArg Prod.fst hnext).trans hex)
        exact ⟨c, σ₃, .again hb hc hrest, hnext.trans heq⟩
      · exact ⟨c, σ₂, .stop hb hc hnormal, Eval.unless_ended heq hnormal⟩

section
variable (hcalls : setting.CallsSound bound)
include hcalls

/-- A declaration is executed by its rule. -/
theorem declareVariable_sound (d : Declaration) :
    (declareVariable setting (invoke setting bound) d).Obeys fun σ r σ' =>
      Executes setting (.declaration d) σ (.ofExcept r) σ' := by
  intro σ h
  obtain ⟨fault, σ', hvalue, heq⟩ | ⟨a, σ₁, hvalue, heq⟩ :=
    (evaluate_sound hcalls d.initializer).peel h
  · exact ⟨.error fault, σ', .initializerFault hvalue, heq⟩
  · exact ⟨_, _, .declaration hvalue, heq.trans (updateArena_machine σ₁ _)⟩

/-- The variables of a choice are declared as if by statements. -/
theorem declareVariables_sound (ds : List Declaration) :
    (declareVariables setting (invoke setting bound) ds).Obeys fun σ r σ' =>
      ExecutesAll setting (ds.map .declaration) σ (.ofExcept r) σ' := by
  induction ds with
  | nil =>
    intro σ _
    exact ⟨.ok (), σ, .nil, rfl⟩
  | cons d ds ih =>
    intro σ h
    obtain ⟨fault, σ', hfirst, heq⟩ | ⟨_, σ₁, hfirst, heq⟩ :=
      (declareVariable_sound hcalls d).peel h
    · exact ⟨.error fault, σ', .stop hfirst nofun, heq⟩
    · rw [declareVariables, heq] at h
      obtain ⟨r, σ₂, hrest, heq'⟩ := ih σ₁ h
      exact ⟨r, σ₂, .next hfirst hrest, heq.trans heq'⟩

/-- A choice is made by the rules, if its cases are selected by them. -/
theorem choose_sound {guards : List Declaration} {subject : Option Expression} {arms : List Case}
    (harms : ∀ value, (select setting (invoke setting bound) bound arms value arms).Performs
      (Selects setting arms value arms)) :
    Eval.Performs (choose setting (invoke setting bound) bound guards subject arms)
      (Chooses setting guards subject arms) := by
  intro σ h
  rw [choose] at h ⊢
  obtain ⟨fault, σ', hguards, heq⟩ | ⟨_, σ₁, hguards, heq⟩ :=
    (declareVariables_sound hcalls guards).peel h
  · exact ⟨_, σ', .guardFault hguards, heq⟩
  rw [heq, choiceSubject_eq] at h
  rw [heq, choiceSubject_eq]
  rcases hsubject : choiceExpression guards subject with _ | e
  · simp only [hsubject, pure_bind] at h ⊢
    obtain ⟨c, σ₂, hselect, heq⟩ := harms none σ₁ h
    exact ⟨c, σ₂, .tested hguards hsubject hselect, heq⟩
  · simp only [hsubject, bind_map_left] at h ⊢
    obtain ⟨fault, σ', he, heq⟩ | ⟨a, σ₂, he, heq⟩ := (evaluate_sound hcalls e).peel h
    · exact ⟨_, σ', .subjectFault hguards hsubject he, heq⟩
    rw [heq] at h ⊢
    obtain ⟨c, σ₃, hselect, heq⟩ := harms (some a) σ₂ h
    exact ⟨c, σ₃, .compared hguards hsubject he hselect, heq⟩

end

mutual

/-- **The execution of a statement follows the rules**, if calls do. -/
theorem execute_sound (hcalls : setting.CallsSound bound) : ∀ s : Statement,
    (execute setting (invoke setting bound) bound s).Performs (Executes setting s)
  | .declaration d => by
    intro σ h
    rw [execute] at h ⊢
    obtain ⟨r, σ', hd, heq⟩ := declareVariable_sound hcalls d σ h
    refine ⟨_, σ', hd, ?_⟩
    rw [heq, Completion.outcome_ofExcept, Completion.pending_ofExcept]
  | .assignment position name e => by
    intro σ h
    rw [execute] at h ⊢
    obtain ⟨fault, σ', he, heq⟩ | ⟨a, σ₁, he, heq⟩ := (evaluate_sound hcalls e).peel h
    · exact ⟨_, σ', .valueFault he, heq⟩
    · exact ⟨_, _, .assignment he, heq.trans (updateArena_completion σ₁ _)⟩
  | .conditional position test thenBlock none => by
    intro σ h
    rw [execute] at h ⊢
    obtain ⟨r, fault, σ', hr, htruth, heq⟩ | ⟨b, σ₁, hb, heq⟩ :=
      condition_peel (evaluate_sound hcalls test) h
    · exact ⟨_, σ', .conditionFault hr htruth, heq⟩
    rw [heq] at h ⊢
    cases b with
    | false => exact ⟨.normal, σ₁, .noElse hb, rfl⟩
    | true =>
      obtain ⟨c, σ₂, hblock, heq⟩ := executeBlock_sound hcalls thenBlock σ₁ h
      exact ⟨c, σ₂, .thenBlock hb hblock, heq⟩
  | .conditional position test thenBlock (some elseBlock) => by
    intro σ h
    rw [execute] at h ⊢
    obtain ⟨r, fault, σ', hr, htruth, heq⟩ | ⟨b, σ₁, hb, heq⟩ :=
      condition_peel (evaluate_sound hcalls test) h
    · exact ⟨_, σ', .conditionFault hr htruth, heq⟩
    rw [heq] at h ⊢
    cases b with
    | false =>
      obtain ⟨c, σ₂, hblock, heq⟩ := executeBlock_sound hcalls elseBlock σ₁ h
      exact ⟨c, σ₂, .elseBlock hb hblock, heq⟩
    | true =>
      obtain ⟨c, σ₂, hblock, heq⟩ := executeBlock_sound hcalls thenBlock σ₁ h
      exact ⟨c, σ₂, .thenBlock hb hblock, heq⟩
  | .loop position test (.mk place body) => by
    intro σ h
    rw [execute] at h ⊢
    -- the scope of the loop is closed at the end only because the rounds are balanced
    have hlinked := linked_balance setting bound
    have hbalanced := balance_repeats bound (hlinked.condition "while" test)
      (hlinked.executeAll body)
    obtain ⟨c, σ', hrepeats, heq⟩ := iterate_sound (evaluate_sound hcalls test)
      (executeAll_sound hcalls body) bound _ (ended_of_withScope hbalanced h)
    exact ⟨c, _, .loop hrepeats, withScope_machine hbalanced heq⟩
  | .choice position guards subject arms => by
    intro σ h
    obtain ⟨first, second, rest, hpositions, hchoice⟩ | ⟨hone, hchoice⟩ := execute_choice setting
      (invoke setting bound) bound position guards subject arms
    · rw [hchoice]
      exact ⟨_, σ, .secondFallback hpositions, rfl⟩
    rw [hchoice] at h ⊢
    have hlinked := linked_balance setting bound
    have hbalanced := hlinked.choose guards subject
      (fun value => hlinked.executeFirstMatch value arms) (hlinked.executeFallback arms)
    obtain ⟨c, σ', hchooses, heq⟩ := choose_sound hcalls
      (fun value => select_sound hcalls arms (fallback_sound hcalls arms) value arms) _
      (ended_of_withScope hbalanced h)
    exact ⟨c, _, .choice hone hchooses, withScope_machine hbalanced heq⟩
  | .giveBack position none => by
    intro σ _
    rw [execute]
    exact ⟨_, σ, .giveBackNone, giveBack_machine σ .void position⟩
  | .giveBack position (some e) => by
    intro σ h
    rw [execute] at h ⊢
    obtain ⟨fault, σ', he, heq⟩ | ⟨a, σ₁, he, heq⟩ := (evaluate_sound hcalls e).peel h
    · exact ⟨_, σ', .giveBackFault he, heq⟩
    · exact ⟨_, σ₁, .giveBack he, heq.trans (giveBack_machine σ₁ a position)⟩
  | .call position name es => by
    intro σ h
    -- a call as a statement is the expression, with its value left out
    have hcall : execute setting (invoke setting bound) bound (.call position name es) =
        evaluate setting (invoke setting bound) (.call position name es) >>= fun _ => pure () := by
      rw [execute, evaluate]
    rw [hcall] at h ⊢
    obtain ⟨fault, σ', he, heq⟩ | ⟨a, σ₁, he, heq⟩ :=
      (evaluate_sound hcalls (.call position name es)).peel h
    · exact ⟨_, σ', .call he, heq⟩
    · exact ⟨_, σ₁, .call he, heq⟩

/-- Blocks are executed by the rules. -/
theorem executeBlock_sound (hcalls : setting.CallsSound bound) : ∀ b : Block,
    (executeBlock setting (invoke setting bound) bound b).Performs (ExecutesBlock setting b)
  | .mk position ss => by
    intro σ h
    rw [executeBlock] at h ⊢
    have hbalanced := (linked_balance setting bound).executeAll ss
    obtain ⟨c, σ', hss, heq⟩ := executeAll_sound hcalls ss _ (ended_of_withScope hbalanced h)
    exact ⟨c, _, .block hss, withScope_machine hbalanced heq⟩

/-- Statements are executed by the rules, up to the first that returns. -/
theorem executeAll_sound (hcalls : setting.CallsSound bound) : ∀ ss : List Statement,
    (executeAll setting (invoke setting bound) bound ss).Performs (ExecutesAll setting ss)
  | [] => by
    intro σ _
    rw [executeAll]
    exact ⟨.normal, σ, .nil, rfl⟩
  | s :: ss => by
    intro σ h
    rw [executeAll] at h ⊢
    obtain ⟨c, σ₁, hfirst, heq⟩ := execute_sound hcalls s σ (Eval.ended_of_bind h)
    by_cases hnormal : c = .normal
    · subst hnormal
      rw [Eval.unless_normal heq] at h ⊢
      obtain ⟨c, σ₂, hrest, heq⟩ := executeAll_sound hcalls ss σ₁ h
      exact ⟨c, σ₂, .next hfirst hrest, heq⟩
    · exact ⟨c, σ₁, .stop hfirst hnormal, Eval.unless_ended heq hnormal⟩

/-- Cases are selected by the rules, down to the default of the whole choice. -/
theorem select_sound (hcalls : setting.CallsSound bound) (all : List Case)
    (hall : ∀ output, fallbackOutput all = some output →
      (executeOutput setting (invoke setting bound) bound output).Performs
        (Produces setting output))
    (subject : Option Value) : ∀ arms : List Case,
    (select setting (invoke setting bound) bound all subject arms).Performs
      (Selects setting all subject arms)
  | [] => by
    intro σ h
    rw [select_nil] at h ⊢
    rcases hfallback : fallbackOutput all with _ | output
    · exact ⟨.normal, σ, .nothing hfallback, rfl⟩
    · simp only [hfallback] at h ⊢
      obtain ⟨c, σ', houtput, heq⟩ := hall output hfallback σ h
      exact ⟨c, σ', .fallback hfallback houtput, heq⟩
  | .fallback position output :: arms => by
    intro σ h
    rw [select_fallback] at h ⊢
    obtain ⟨c, σ', hrest, heq⟩ := select_sound hcalls all hall subject arms σ h
    exact ⟨c, σ', .skipped hrest, heq⟩
  | .test position relation e output :: arms => by
    intro σ h
    rw [select_test] at h ⊢
    by_cases hsubject : relation.isSome → subject.isSome
    · rw [testSucceeds_eq setting (invoke setting bound) hsubject] at h ⊢
      obtain ⟨fault, σ', ⟨r, hr, happlies⟩, heq⟩ | ⟨b, σ₁, ⟨r, hr, happlies⟩, heq⟩ :=
        ((evaluate_sound hcalls e).bind_ofExcept
          (caseApplies subject relation position e)).peel h
      · exact ⟨_, σ', .testFault hsubject hr happlies, heq⟩
      rw [heq] at h ⊢
      cases b with
      | false =>
        obtain ⟨c, σ₂, hrest, heq⟩ := select_sound hcalls all hall subject arms σ₁ h
        exact ⟨c, σ₂, .next hsubject hr happlies hrest, heq⟩
      | true =>
        obtain ⟨c, σ₂, houtput, heq⟩ := executeOutput_sound hcalls output σ₁ h
        exact ⟨c, σ₂, .applies hsubject hr happlies houtput, heq⟩
    -- a relation without a subject is refused before its expression is evaluated
    · obtain ⟨op, rfl, rfl⟩ := exists_of_unmatched hsubject
      exact ⟨_, σ, .noSubject, rfl⟩

theorem fallback_sound
    (hcalls : setting.CallsSound bound) : ∀ (arms : List Case) (output : CaseOutput),
    fallbackOutput arms = some output →
      (executeOutput setting (invoke setting bound) bound output).Performs (Produces setting output)
  | .fallback position output :: arms, _, h => by
    rw [fallbackOutput] at h
    cases h
    exact executeOutput_sound hcalls output
  | .test position relation e output :: arms, _, h => by
    rw [fallbackOutput] at h
    exact fallback_sound hcalls arms _ h

theorem executeOutput_sound (hcalls : setting.CallsSound bound) : ∀ output : CaseOutput,
    (executeOutput setting (invoke setting bound) bound output).Performs (Produces setting output)
  | .block b => by
    intro σ h
    rw [executeOutput] at h ⊢
    obtain ⟨c, σ', hblock, heq⟩ := executeBlock_sound hcalls b σ h
    exact ⟨c, σ', .block hblock, heq⟩
  | .expression e => by
    intro σ h
    rw [executeOutput] at h ⊢
    obtain ⟨fault, σ', he, heq⟩ | ⟨a, σ₁, he, heq⟩ := (evaluate_sound hcalls e).peel h
    · exact ⟨_, σ', .fault he, heq⟩
    rw [heq]
    by_cases hvoid : a = .void
    · subst hvoid
      exact ⟨.normal, σ₁, .nothing he, rfl⟩
    · rw [if_neg hvoid]
      exact ⟨_, σ₁, .value he hvoid, giveBack_machine σ₁ a e.position⟩

end

end

/-! ## Calls -/

/-- **Calls follow the rules.** -/
theorem invoke_sound (setting : Setting) (bound : Nat) : setting.CallsSound bound := by
  -- the calls in a body have one bound less, so their rules are known
  induction bound with
  | zero =>
    intro function values position σ h
    exact absurd rfl h
  | succ bound ih =>
    intro function values position σ h
    by_cases hdepth : setting.maxDepth ≤ σ.calls.depth function.name
    · exact ⟨_, σ, .refused hdepth, invoke_refused hdepth⟩
    have hlt := Nat.lt_of_not_le hdepth
    have hbalanced := (linked_balance setting bound).enter function values position
    have hended : (enter setting (invoke setting bound) bound function values position
        (((σ.activate function.name).enter (some function.returnType)).machine none)).1 ≠
          .exhausted := by
      have hallowed : ¬(σ.machine none).calls.depth function.name ≥ setting.maxDepth := hdepth
      rw [invoke_succ, if_neg hallowed] at h
      exact ended_of_withScope hbalanced (Eval.ended_of_bind h)
    rcases hbind : ((σ.activate function.name).enter (some function.returnType)).bindParameters
      function.name position 1 function.parameters values with ⟨fault | _, σ₁⟩
    · exact ⟨_, _, .badArgument hlt hbind, invoke_machine hlt (enter_failed hbind)⟩
    · rw [enter_bound hbind] at hended
      obtain ⟨c, σ₂, hbody, heq⟩ := executeAll_sound ih function.body.statements σ₁ hended
      exact ⟨_, _, .completed hlt hbind hbody,
        invoke_machine hlt ((enter_bound hbind).trans heq)⟩

end FLang
