import FLang.Proofs.Language

/-!
# What a rule looks at

A rule reads some tokens and looks at one more, and what it does depends on nothing else: it does
the same on every reader that reads these tokens and then stands on that one. This is `ScansAt`.
There are three ways for it to end:

* it yields a value, and the reader stands on the token that it looked at last;
* it fails, and the fault is located at that token (`Fault.FoundAt`);
* it would move off that token, but what follows is a fault of the lexer, which is then its own.

Loops are given as many turns as there are tokens left, so they would look at all of the input. More
turns change nothing (`Consumes.enough`), so each of them is equal to its unrolled form
(`Consumes.unrolled`).
-/

namespace FLang

open Grammar Parse FLang.Parser

/-- A fault of the parser is found at a token, behind some others. A redefined function is found at
its end and located at its name, and a constant of too many digits is found while an error message
is written. -/
inductive Fault.FoundAt (ts : List Lookahead) (t : Lookahead) : Fault → Prop
  | here (cause : Diagnostic.Cause) : FoundAt ts t (.grammatical t.position cause)
  | redefinition {name : Lookahead} (id : String) (earlier : Position) : name ∈ ts →
    FoundAt ts t (.grammatical name.position (.functionRedefinition id earlier))
  | unshown {fault : Fault} : t.lexeme.describe = .error fault → FoundAt ts t fault

/-- A fault is found behind more tokens as well. -/
theorem Fault.FoundAt.append {ts : List Lookahead} {t : Lookahead} {fault : Fault}
    (h : fault.FoundAt ts t) (us : List Lookahead) : fault.FoundAt (us ++ ts) t := by
  cases h with
  | here cause => exact .here cause
  | redefinition id earlier hname => exact .redefinition id earlier (List.mem_append_right us hname)
  | unshown hl => exact .unshown hl

/-- What a computation does on a reader depends only on the tokens up to the last one that it looks
at. -/
inductive ScansAt {α : Type} (x : Parse α) (r : Reader) : Prop
  | yields {ts : List Lookahead} {r' : Reader} (a : α) : Reads r ts r' →
    (∀ {s s'}, Reads s ts s' → s'.current = r'.current → x s = .ok (a, s')) → ScansAt x r
  | fails {ts : List Lookahead} {r' : Reader} {fault : Fault} : Reads r ts r' →
    fault.FoundAt ts r'.current →
    (∀ {s s'}, Reads s ts s' → s'.current = r'.current → x s = .error fault) → ScansAt x r
  | stops {ts : List Lookahead} {r' : Reader} {fault : Fault} : Reads r ts r' →
    r'.current.lexeme ≠ .endOfInput → r'.next = .error fault →
    (∀ {s s' fault'}, Reads s ts s' → s'.current = r'.current → s'.next = .error fault' →
      x s = .error fault') → ScansAt x r

/-- The same on every reader. -/
abbrev Scans {α : Type} (x : Parse α) : Prop :=
  ∀ r, ScansAt x r

section
variable {α β : Type} {x y : Parse α} {f : α → Parse β} {r r' s s' : Reader}
  {ts : List Lookahead}

/-- Readers of the same tokens stand on the same token. -/
theorem Reads.current_congr (hr : Reads r ts r') (hs : Reads s ts s')
    (h : s'.current = r'.current) : s.current = r.current := by
  cases hr with
  | nil =>
    obtain rfl := hs.nil_inv
    exact h
  | cons _ _ _ => exact hs.cons_inv.1

namespace ScansAt

/-- A value is there without a look at any token. -/
theorem pure (a : α) : ScansAt (pure a) r := by
  refine .yields a .nil fun {s s'} hs _ => ?_
  obtain rfl := hs.nil_inv
  rfl

/-- A failure is located at the token that the reader stands on. -/
theorem fail (cause : Diagnostic.Cause) : ScansAt (Parse.fail cause : Parse α) r := by
  refine .fails .nil (.here cause) fun {s s'} hs h => ?_
  obtain rfl := hs.nil_inv
  rw [Parse.fail, h]

/-- Moving on looks at the token behind, which may be missing because of a fault of the lexer. -/
theorem advance (ht : r.current.lexeme ≠ .endOfInput) : ScansAt Parse.advance r := by
  cases hn : r.next with
  | ok r' =>
    exact .yields () (.one ht hn) fun hs _ => advance_of_reads hs
  | error fault =>
    refine .stops .nil ht hn fun {s s' fault'} hs _ hn' => ?_
    obtain rfl := hs.nil_inv
    rw [Parse.advance, hn']
    rfl

/-- A computation that only looks at the current token to decide what to do. -/
theorem congr (h : ScansAt y r) (heq : ∀ s, s.current = r.current → x s = y s) : ScansAt x r := by
  cases h with
  | yields a hr hy =>
    refine .yields a hr fun hs hcurrent => ?_
    rw [heq _ (hr.current_congr hs hcurrent)]
    exact hy hs hcurrent
  | fails hr hfound hy =>
    refine .fails hr hfound fun hs hcurrent => ?_
    rw [heq _ (hr.current_congr hs hcurrent)]
    exact hy hs hcurrent
  | stops hr hend hnext hy =>
    refine .stops hr hend hnext fun hs hcurrent hn => ?_
    rw [heq _ (hr.current_congr hs hcurrent)]
    exact hy hs hcurrent hn

/-- **Sequences scan if their parts do**: the second part starts on the token that the first one
looked at last. -/
theorem bind (hx : ScansAt x r) (hf : ∀ {a r'}, x r = .ok (a, r') → ScansAt (f a) r') :
    ScansAt (x >>= f) r := by
  cases hx with
  | @yields ts r₁ a hr hx =>
    -- on another reader the first part does the same, because what it looked at last is the same
    -- there
    have after : ∀ {ts' r' s s'}, Reads r₁ ts' r' → Reads s (ts ++ ts') s' →
        s'.current = r'.current → ∃ s₁, x s = .ok (a, s₁) ∧ Reads s₁ ts' s' := by
      intro ts' r' s s' hr' hs hcurrent
      obtain ⟨s₁, hs₁, hs₂⟩ := hs.append_inv
      exact ⟨s₁, hx hs₁ (hr'.current_congr hs₂ hcurrent), hs₂⟩
    cases hf (hx hr rfl) with
    | yields b hr' hf =>
      refine .yields b (hr.append hr') fun hs hcurrent => ?_
      obtain ⟨s₁, hs₁, hs₂⟩ := after hr' hs hcurrent
      rw [bind_of_ok hs₁]
      exact hf hs₂ hcurrent
    | fails hr' hfound hf =>
      refine .fails (hr.append hr') (hfound.append ts) fun hs hcurrent => ?_
      obtain ⟨s₁, hs₁, hs₂⟩ := after hr' hs hcurrent
      rw [bind_of_ok hs₁]
      exact hf hs₂ hcurrent
    | stops hr' hend hnext hf =>
      refine .stops (hr.append hr') hend hnext fun hs hcurrent hn => ?_
      obtain ⟨s₁, hs₁, hs₂⟩ := after hr' hs hcurrent
      rw [bind_of_ok hs₁]
      exact hf hs₂ hcurrent hn
  | fails hr hfound hx =>
    exact .fails hr hfound fun hs hcurrent => bind_of_error (hx hs hcurrent)
  | stops hr hend hnext hx =>
    exact .stops hr hend hnext fun hs hcurrent hn => bind_of_error (hx hs hcurrent hn)

/-- What a computation leaves behind, it has read. -/
theorem reads (h : ScansAt x r) {a : α} (hx : x r = .ok (a, r')) : ∃ ts, Reads r ts r' := by
  cases h with
  | yields _ hr hy =>
    rw [hy hr rfl] at hx
    obtain ⟨-, rfl⟩ := Prod.mk.inj (Except.ok.inj hx)
    exact ⟨_, hr⟩
  | fails hr _ hy =>
    rw [hy hr rfl] at hx
    cases hx
  | stops hr _ hnext hy =>
    rw [hy hr rfl hnext] at hx
    cases hx

/-- Looking at the current token does not move. -/
theorem token {f : Token → Parse β} (h : ScansAt (f r.current.token) r) :
    ScansAt (Parse.token >>= f) r :=
  h.congr fun s hs => by rw [token_bind, hs]

theorem lexeme {f : Lexeme → Parse β} (h : ScansAt (f r.current.lexeme) r) :
    ScansAt (Parse.lexeme >>= f) r :=
  h.congr fun s hs => by rw [lexeme_bind, hs]

theorem newlineBefore {f : Bool → Parse β} (h : ScansAt (f r.current.newlineBefore) r) :
    ScansAt (Parse.newlineBefore >>= f) r :=
  h.congr fun s hs => by rw [newlineBefore_bind, hs]

/-- A computation that refuses what it has built, by the name of it. -/
theorem refuse (hx : ScansAt x r) {a : α} (hr : x r = .ok (a, r')) {name : Lookahead}
    (hname : ∀ {ts}, Reads r ts r' → name ∈ ts) (id : String) (earlier : Position)
    (hf : f a = failAt name.position (.functionRedefinition id earlier)) :
    ScansAt (x >>= f) r := by
  cases hx with
  | yields b hread hsame =>
    obtain ⟨rfl, rfl⟩ := Prod.mk.inj (Except.ok.inj (hr.symm.trans (hsame hread rfl)))
    refine .fails hread (.redefinition id earlier (hname hread)) fun hs hcurrent => ?_
    rw [bind_of_ok (hsame hs hcurrent), hf]
    rfl
  | fails hread _ hsame =>
    rw [hsame hread rfl] at hr
    cases hr
  | stops hread _ hnext hsame =>
    rw [hsame hread rfl hnext] at hr
    cases hr

end ScansAt

end

/-! ## The moves of a rule -/

section
variable {α : Type}

/-- A token is consumed if it is the one that is wanted, and left otherwise. -/
theorem acceptLexeme_scans {wanted : Lexeme} (hne : wanted ≠ .endOfInput) :
    Scans (acceptLexeme wanted) := by
  intro r
  refine .lexeme ?_
  split
  · next hl => exact .bind (.advance (hl ▸ hne)) fun _ => .pure _
  · exact .pure _

theorem accept_scans (mark : Punctuation) : Scans (accept mark) := by
  rw [accept_eq]
  exact acceptLexeme_scans (by simp)

theorem acceptKeyword_scans (word : Keyword) : Scans (acceptKeyword word) := by
  rw [acceptKeyword_eq]
  exact acceptLexeme_scans (by simp)

/-- A mark is consumed, or missed at the token in its place. -/
theorem expect_scans (mark : Punctuation) (cause : Diagnostic.Cause) :
    Scans (expect mark cause) := by
  intro r
  refine .lexeme ?_
  split
  · next hl => exact .advance (by simp [hl])
  · exact .fail _

/-- A name is consumed, or missed at the token in its place. -/
theorem expectIdentifier_scans (cause : Diagnostic.Cause) : Scans (expectIdentifier cause) := by
  intro r
  refine .token ?_
  generalize hl : r.current.token.lexeme = l
  split
  · exact .bind (.advance (by simp [hl])) fun _ => .pure _
  · exact .fail _

/-- What has to be there is scanned, or missed at the token in its place. -/
theorem require_scans {rule : Parse (Option α)} (h : Scans rule) (cause : Diagnostic.Cause) :
    Scans (require rule cause) := by
  intro r
  refine (h r).bind fun {found r'} _ => ?_
  cases found with
  | none => exact .fail _
  | some a => exact .pure _

/-- A type name is consumed if it is there. -/
theorem typeAnnotation_scans : Scans typeAnnotation := by
  intro r
  refine .lexeme ?_
  generalize hl : r.current.lexeme = l
  split
  · exact .bind (.advance (by simp [hl])) fun _ => .pure _
  · exact .pure _

/-- Only an integer of too many digits cannot be shown. -/
theorem describe_error {l : Lexeme} {fault : Fault} (h : l.describe = .error fault) :
    fault = .tooManyDigits none := by
  unfold Lexeme.describe at h
  split at h
  · simp only [reduceCtorEq] at h
  · split at h
    · simp only [reduceCtorEq] at h
    · exact (Except.error.inj h).symm
  all_goals simp only [reduceCtorEq] at h

/-- An error message that shows the current lexeme, if it can be shown. -/
theorem failShowing_scans (cause : String → Diagnostic.Cause) (r : Reader) :
    ScansAt (do fail (cause (← r.current.lexeme.describe)) : Parse α) r := by
  cases hl : r.current.lexeme.describe with
  | ok text => exact (ScansAt.fail (cause text)).congr fun _ _ => rfl
  | error fault => exact .fails .nil (.unshown hl) fun _ _ => rfl

end

/-! ## Loops -/

section
variable {α β : Type} {x y : Parse α} {f g : α → Parse β} {r r' : Reader}

/-- Sequences with the same first part are compared behind it. -/
theorem bind_congr_at (h : ∀ {a r'}, x r = .ok (a, r') → f a r' = g a r') :
    (x >>= f) r = (x >>= g) r := by
  rcases hx : x r with fault | ⟨a, r'⟩
  · rw [bind_of_error hx, bind_of_error hx]
  · rw [bind_of_ok hx, bind_of_ok hx]
    exact h hx

/-- Sequences that go on in the same way are compared by their first parts. -/
theorem bind_congr_first (h : x r = y r) : (x >>= f) r = (y >>= f) r := by
  change (x r >>= fun p => f p.1 p.2) = (y r >>= fun p => f p.1 p.2)
  rw [h]

/-- How many tokens a reader can still consume. -/
theorem upcoming_le_budget : r.upcoming.length ≤ r.budget := by
  rw [Reader.budget, r.left_eq]
  exact (List.takeWhile_sublist _).length_le

/-- With no token to come, a reader stands on the end of the input. -/
theorem endOfInput_of_upcoming (h : r.upcoming.length = 0) : r.current.lexeme = .endOfInput := by
  by_contra hne
  rw [Reader.upcoming_of_ne hne] at h
  cases h

/-- Reading a token leaves fewer to come. -/
theorem Reads.upcoming_lt {t : Lookahead} {ts : List Lookahead} (h : Reads r (t :: ts) r') :
    r'.upcoming.length < r.upcoming.length := by
  rw [h.upcoming_eq, List.length_append, List.length_cons]
  omega

end

/-- A loop that consumes tokens in each of its rounds. Its body is given the rest of the loop, which
it runs only after it has consumed a token. -/
structure Consumes {σ α : Type} (loop : Nat → σ → Parse α) (round : (σ → Parse α) → σ → Parse α) :
    Prop where
  /-- one more round -/
  succ : ∀ fuel s, loop (fuel + 1) s = round (loop fuel) s
  /-- a round depends on the rest of the loop only with fewer tokens to come -/
  congr : ∀ {next next' : σ → Parse α} {s : σ} {r : Reader},
    (∀ s' r', r'.upcoming.length < r.upcoming.length → next s' r' = next' s' r') →
      round next s r = round next' s r
  /-- with no token to come, the rounds that are left make no difference -/
  at_end : ∀ {r : Reader}, r.current.lexeme = .endOfInput → ∀ fuel s, loop fuel s r = loop 0 s r

namespace Consumes
variable {σ α : Type} {loop : Nat → σ → Parse α} {round : (σ → Parse α) → σ → Parse α}

/-- A loop does the same with every bound that is not below the number of tokens to come. -/
theorem enough (h : Consumes loop round) {fuel fuel' : Nat} {s : σ} {r : Reader}
    (hfuel : r.upcoming.length ≤ fuel) (hfuel' : r.upcoming.length ≤ fuel') :
    loop fuel s r = loop fuel' s r := by
  induction fuel generalizing fuel' s r with
  | zero => exact (h.at_end (endOfInput_of_upcoming (Nat.le_zero.1 hfuel)) fuel' s).symm
  | succ fuel ih =>
    cases fuel' with
    | zero => exact h.at_end (endOfInput_of_upcoming (Nat.le_zero.1 hfuel')) (fuel + 1) s
    | succ fuel' =>
      rw [h.succ, h.succ]
      exact h.congr fun s' r' hlt => ih (by omega) (by omega)

/-- A loop whose bound is always large enough is its own body. -/
theorem unrolled (h : Consumes loop round) (on : σ → Parse α) {bound : Reader → Nat}
    (hon : ∀ s r, on s r = loop (bound r) s r) (hbound : ∀ r, r.upcoming.length ≤ bound r) (s : σ) :
    on s = round on s := by
  funext r
  have hr := hbound r
  calc on s r = loop (bound r + 1) s r := (hon s r).trans (h.enough hr (by omega))
    _ = round (loop (bound r)) s r := by rw [h.succ]
    _ = round on s r := h.congr fun s' r' hlt =>
        (h.enough (by omega) (hbound r')).trans (hon s' r').symm

end Consumes

section
variable {α : Type} {item : Parse α} {r : Reader}

/-- At the end of the input no comma follows, whatever the bound. -/
theorem afterCommas_at_end (h : r.current.lexeme = .endOfInput) (fuel : Nat) :
    afterCommas item fuel r = .ok ([], r) := by
  cases fuel with
  | zero => rfl
  | succ fuel =>
    rw [afterCommas, bind_of_ok (accept_of_ne (by simp [h]))]
    rfl

/-- Each round of the loop over commas consumes one. -/
theorem afterCommas_consumes (h : Scans item) :
    Consumes (fun fuel (_ : Unit) => afterCommas item fuel) fun next _ => do
      if ← accept .comma then
        let first ← item
        let rest ← next ()
        return first :: rest
      else return [] where
  succ _ _ := rfl
  congr {next next' _ r} hnext := by
    refine bind_congr_at fun {b r₁} hb => ?_
    rcases accept_inv hb with ⟨rfl, -, hcomma⟩ | ⟨rfl, -, -⟩
    · refine bind_congr_at fun {first r₂} hfirst => bind_congr_first ?_
      obtain ⟨ts, hts⟩ := (h r₁).reads hfirst
      exact hnext () r₂ (hcomma.append hts).upcoming_lt
    · rfl
  at_end hend _ _ := (afterCommas_at_end hend _).trans (afterCommas_at_end hend 0).symm

/-- A bound that is not below the number of tokens to come is never reached. -/
theorem afterCommas_enough (h : Scans item) {fuel fuel' : Nat} {r : Reader}
    (hfuel : r.upcoming.length ≤ fuel) (hfuel' : r.upcoming.length ≤ fuel') :
    afterCommas item fuel r = afterCommas item fuel' r :=
  (afterCommas_consumes h).enough (s := ()) hfuel hfuel'

/-- Items after commas, without a bound for their number. -/
theorem moreAfterCommas_eq (h : Scans item) :
    moreAfterCommas item = (do
      if ← accept .comma then
        let first ← item
        let rest ← moreAfterCommas item
        return first :: rest
      else return []) :=
  (afterCommas_consumes h).unrolled (fun _ => moreAfterCommas item)
    (fun _ _ => budget_bind) (fun _ => upcoming_le_budget) ()

/-- Items after commas scan if the items do, by induction on the tokens to come. -/
theorem moreAfterCommas_scans (h : Scans item) : Scans (moreAfterCommas item) := by
  intro r
  induction hn : r.upcoming.length using Nat.strong_induction_on generalizing r with
  | _ n ih =>
    rw [moreAfterCommas_eq h]
    refine (accept_scans .comma r).bind fun {b r₁} hb => ?_
    rcases accept_inv hb with ⟨rfl, -, hcomma⟩ | ⟨rfl, -, -⟩
    · refine (h r₁).bind fun {first r₂} hfirst => ?_
      obtain ⟨ts, hts⟩ := (h r₁).reads hfirst
      have hlt := (hcomma.append hts).upcoming_lt
      exact (ih _ (hn ▸ hlt) r₂ rfl).bind fun _ => .pure _
    · exact .pure _

end

section
variable {operatorOf : Lexeme → Option BinaryOperator} {ops : List BinaryOperator}
  {operand : Parse (Option Expression)} {r : Reader}

/-- At the end of the input no operator follows, whatever the bound. -/
theorem chainFrom_at_end (htable : Tabulates operatorOf ops) (h : r.current.lexeme = .endOfInput)
    (fuel : Nat) (left : Expression) :
    chainFrom operatorOf operand fuel left r = .ok (left, r) :=
  chainFrom_stops htable fuel left (by simp [h])

/-- Each round of the loop over operators consumes one. -/
theorem chainFrom_consumes (htable : Tabulates operatorOf ops) (h : Scans operand) :
    Consumes (chainFrom operatorOf operand) fun next left => do
      let here ← token
      match operatorOf here.lexeme with
      | none => return left
      | some op =>
        advance
        let right ← require operand (.missingExpression (quote op.symbol))
        next (.binary here.position op left right) where
  succ _ _ := rfl
  congr {next next' left r} hnext := by
    rw [token_bind, token_bind]
    generalize hop : operatorOf r.current.token.lexeme = found
    cases found with
    | none => rfl
    | some op =>
      have hl := ((htable _ _).1 hop).1
      refine bind_congr_at fun {u r₁} hadv => bind_congr_at fun {right r₂} hright => ?_
      obtain ⟨ts, hts⟩ := (require_scans h _ r₁).reads hright
      exact hnext _ r₂ ((reads_of_advance (by simp [hl]) hadv).append hts).upcoming_lt
  at_end hend _ _ :=
    (chainFrom_at_end htable hend _ _).trans (chainFrom_at_end htable hend 0 _).symm

/-- A bound that is not below the number of tokens to come is never reached. -/
theorem chainFrom_enough (htable : Tabulates operatorOf ops) (h : Scans operand)
    {fuel fuel' : Nat} {left : Expression} {r : Reader} (hfuel : r.upcoming.length ≤ fuel)
    (hfuel' : r.upcoming.length ≤ fuel') :
    chainFrom operatorOf operand fuel left r = chainFrom operatorOf operand fuel' left r :=
  (chainFrom_consumes htable h).enough hfuel hfuel'

/-- Further operands of a level, without a bound for their number. -/
def chainOn (operatorOf : Lexeme → Option BinaryOperator) (operand : Parse (Option Expression))
    (left : Expression) : Parse Expression := do
  chainFrom operatorOf operand (← budget) left

/-- Further operands of a level, one round of their loop. -/
theorem chainOn_eq (htable : Tabulates operatorOf ops) (h : Scans operand) (left : Expression) :
    chainOn operatorOf operand left = (do
      let here ← token
      match operatorOf here.lexeme with
      | none => return left
      | some op =>
        advance
        let right ← require operand (.missingExpression (quote op.symbol))
        chainOn operatorOf operand (.binary here.position op left right)) :=
  (chainFrom_consumes htable h).unrolled (chainOn operatorOf operand)
    (fun _ _ => budget_bind) (fun _ => upcoming_le_budget) left

/-- Further operands scan, by induction on the tokens to come. -/
theorem chainOn_scans (htable : Tabulates operatorOf ops) (h : Scans operand) (left : Expression) :
    Scans (chainOn operatorOf operand left) := by
  intro r
  induction hn : r.upcoming.length using Nat.strong_induction_on generalizing r left with
  | _ n ih =>
    rw [chainOn_eq htable h]
    refine .token ?_
    generalize hop : operatorOf r.current.token.lexeme = found
    cases found with
    | none => exact .pure _
    | some op =>
      have hne : r.current.lexeme ≠ .endOfInput := by simp [((htable _ _).1 hop).1]
      refine (ScansAt.advance hne).bind fun {u r₁} hadv => ?_
      refine (require_scans h _ r₁).bind fun {right r₂} hright => ?_
      obtain ⟨ts, hts⟩ := (require_scans h _ r₁).reads hright
      have hlt := ((reads_of_advance hne hadv).append hts).upcoming_lt
      exact ih _ (hn ▸ hlt) _ r₂ rfl

/-- A level of operators scans if its operands do. -/
theorem chain_scans (htable : Tabulates operatorOf ops) (h : Scans operand) :
    Scans (chain operatorOf operand) := by
  intro r
  refine (h r).bind fun {found r₁} _ => ?_
  cases found with
  | none => exact .pure _
  | some left =>
    have hloop := (chainOn_scans htable h left r₁).bind (f := fun e => pure (some e))
      fun _ => .pure _
    exact hloop.congr fun s _ => rfl

end

end FLang
