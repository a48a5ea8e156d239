import FLang.Proofs.Soundness.Rules

/-!
# Complete rules

A rule is *complete* if it finds every phrase of its construct, read up to a token that cannot go on
with it, and declines wherever no phrase starts (`RuleComplete`). The only other way for a rule to
end on a phrase is to refuse its nesting; a proposition `deep` says whether that can happen.
-/

namespace FLang

open Grammar Parse FLang.Parser

variable {α β : Type} {deep : Prop} {r r₁ r' : Reader} {t : Lookahead}

/-- A computation yields a value and moves the reader, or refuses what is nested too deep. -/
def Yields (deep : Prop) (result : Except Fault (α × Reader)) (a : α) (r : Reader) : Prop :=
  result = .ok (a, r) ∨ deep ∧ ∃ position, result = .error (.grammatical position .nestingTooDeep)

/-- A computation finds every phrase that a token in `follow` comes after. -/
def Finds (deep : Prop) (follow : Lexeme → Prop) (x : Parse α) (phrase : Phrase α) : Prop :=
  ∀ ⦃ts : List Lookahead⦄ ⦃a : α⦄ ⦃r r' : Reader⦄, phrase ts a → Reads r ts r' →
    follow r'.current.lexeme → Yields deep (x r) a r'

/-- A rule finds every phrase that a token in `follow` comes after, and declines where no phrase
starts. -/
structure RuleComplete (deep : Prop) (follow : Lexeme → Prop) (rule : Parse (Option α))
    (phrase : Phrase α) (first : Lexeme → Bool) : Prop where
  /-- A phrase is found. -/
  finds : ∀ {ts : List Lookahead} {a : α} {r r' : Reader}, phrase ts a → Reads r ts r' →
    follow r'.current.lexeme → Yields deep (rule r) (some a) r'
  /-- Nothing is consumed where no phrase starts. -/
  declines : ∀ {r : Reader}, first r.current.lexeme = false → rule r = .ok (none, r)

namespace Yields

/-- What succeeds yields its value. -/
theorem ok {result : Except Fault (α × Reader)} {a : α} (h : result = .ok (a, r)) :
    Yields deep result a r :=
  .inl h

/-- A sequence yields what its second part yields behind the first one. -/
theorem bind {x : Parse α} {f : α → Parse β} {a : α} {b : β} (hx : Yields deep (x r) a r₁)
    (hf : Yields deep (f a r₁) b r') : Yields deep ((x >>= f) r) b r' := by
  rcases hx with hx | ⟨hd, position, hx⟩
  · rw [Yields, bind_of_ok hx]
    exact hf
  · exact .inr ⟨hd, position, bind_of_error hx⟩

theorem pure (a : α) : Yields deep ((pure a : Parse α) r) a r :=
  .ok rfl

/-- Without nesting that is too deep, a computation yields its value. -/
theorem eq_ok {result : Except Fault (α × Reader)} {a : α} (h : Yields deep result a r)
    (hd : ¬ deep) : result = .ok (a, r) :=
  h.resolve_right fun h => hd h.1

end Yields

/-! ## The moves of a rule -/

/-- Reading one token is moving over it. -/
theorem advance_of_reads (h : Reads r [t] r') : advance r = .ok ((), r') := by
  obtain ⟨-, -, r₁, hn, hr⟩ := h.cons_inv
  obtain rfl := hr.nil_inv
  exact advance_eq_ok.2 hn

/-- The first token that is read is the one that the reader stands on. -/
theorem Reads.current_eq {ts : List Lookahead} (h : Reads r (t :: ts) r') : r.current = t :=
  h.cons_inv.1

/-- The first token can be read by itself. -/
theorem Reads.cons_split {ts : List Lookahead} (h : Reads r (t :: ts) r') :
    ∃ r₁, Reads r [t] r₁ ∧ Reads r₁ ts r' := by
  rw [← List.singleton_append] at h
  exact h.append_inv

/-- A mark that is expected and there is consumed. -/
theorem expect_of_reads {mark : Punctuation} {cause : Diagnostic.Cause} (h : Reads r [t] r')
    (ht : t.lexeme = .punctuation mark) : expect mark cause r = .ok ((), r') := by
  unfold expect
  rw [lexeme_bind, h.current_eq, if_pos ht]
  exact advance_of_reads h

/-- A token that is there is accepted. -/
theorem acceptLexeme_of_reads (h : Reads r [t] r') :
    acceptLexeme t.lexeme r = .ok (true, r') := by
  unfold acceptLexeme
  rw [lexeme_bind, h.current_eq, if_pos rfl, bind_of_ok (advance_of_reads h)]
  rfl

/-- Another token is left where it is. -/
theorem acceptLexeme_of_ne {wanted : Lexeme} (h : r.current.lexeme ≠ wanted) :
    acceptLexeme wanted r = .ok (false, r) := by
  unfold acceptLexeme
  rw [lexeme_bind, if_neg h]
  rfl

theorem accept_of_reads {mark : Punctuation} (h : Reads r [t] r')
    (ht : t.lexeme = .punctuation mark) : accept mark r = .ok (true, r') := by
  rw [accept_eq, ← ht]
  exact acceptLexeme_of_reads h

theorem accept_of_ne {mark : Punctuation} (h : r.current.lexeme ≠ .punctuation mark) :
    accept mark r = .ok (false, r) :=
  acceptLexeme_of_ne h

theorem acceptKeyword_of_reads {word : Keyword} (h : Reads r [t] r')
    (ht : t.lexeme = .keyword word) : acceptKeyword word r = .ok (true, r') := by
  rw [acceptKeyword_eq, ← ht]
  exact acceptLexeme_of_reads h

theorem acceptKeyword_of_ne {word : Keyword} (h : r.current.lexeme ≠ .keyword word) :
    acceptKeyword word r = .ok (false, r) :=
  acceptLexeme_of_ne h

/-- A name that is expected is found. -/
theorem finds_expectIdentifier {cause : Diagnostic.Cause} :
    Finds deep (fun _ => True) (expectIdentifier cause) Name := by
  intro ts a r r' ha hr _
  cases ha with
  | @intro t id hl =>
    refine .ok ?_
    unfold expectIdentifier
    rw [token_bind, hr.current_eq]
    simp only [hl]
    rw [bind_of_ok (advance_of_reads hr)]
    rfl

/-- A rule that finds something is no matter to what requires it. -/
theorem require_yields {rule : Parse (Option α)} {cause : Diagnostic.Cause} {a : α}
    (h : Yields deep (rule r) (some a) r') : Yields deep (require rule cause r) a r' :=
  h.bind (.pure a)

/-- A complete rule, required, finds its phrases. -/
theorem RuleComplete.finds_require {follow : Lexeme → Prop} {rule : Parse (Option α)}
    {phrase : Phrase α} {first : Lexeme → Bool} (h : RuleComplete deep follow rule phrase first)
    (cause : Diagnostic.Cause) : Finds deep follow (require rule cause) phrase :=
  fun _ _ _ _ hp hr hf => require_yields (h.finds hp hr hf)

/-- The names of types are found, and nothing else is. -/
theorem typeAnnotation_complete :
    RuleComplete deep (fun _ => True) typeAnnotation TypeName isTypeName where
  finds := by
    intro ts a r r' ha hr _
    cases ha with
    | @intro t type hl =>
      refine .ok ?_
      unfold typeAnnotation
      rw [lexeme_bind, hr.current_eq]
      simp only [hl]
      rw [bind_of_ok (advance_of_reads hr)]
      rfl
  declines := by
    intro r hr
    unfold typeAnnotation
    rw [lexeme_bind]
    generalize r.current.lexeme = l at hr
    cases l with
    | typeName type => cases hr
    | _ => rfl

/-! ## Items after commas -/

section
variable {item : Parse α} {phrase : Phrase α} {follow : Lexeme → Prop}

/-- What stands before items after commas is followed by a comma, or by what follows the items. -/
theorem Grammar.AfterCommas.follows {ts : List Lookahead} {xs : List α}
    (h : AfterCommas phrase ts xs) (hr : Reads r ts r') (hcomma : follow (.punctuation .comma))
    (hend : follow r'.current.lexeme) : follow r.current.lexeme := by
  cases h with
  | nil =>
    obtain rfl := hr.nil_inv
    exact hend
  | cons hl _ _ =>
    rw [List.cons_append] at hr
    rw [hr.current_eq, hl]
    exact hcomma

/-- There are no more items than tokens. -/
theorem Grammar.AfterCommas.length_le {ts : List Lookahead} {xs : List α}
    (h : AfterCommas phrase ts xs) : xs.length ≤ ts.length := by
  induction h with
  | nil => exact Nat.le_refl _
  | cons _ _ _ ih =>
    simp only [List.length_cons, List.length_append]
    omega

/-- Items after commas are found with a bound that is not below their number. -/
theorem afterCommas_yields (h : Finds deep follow item phrase)
    (hcomma : follow (.punctuation .comma)) {ts : List Lookahead} {xs : List α}
    (hxs : AfterCommas phrase ts xs) :
    ∀ {fuel : Nat} {r r' : Reader}, xs.length ≤ fuel → Reads r ts r' → follow r'.current.lexeme →
      r'.current.lexeme ≠ .punctuation .comma → Yields deep (afterCommas item fuel r) xs r' := by
  induction hxs with
  | nil =>
    intro fuel r r' _ hr _ hne
    obtain rfl := hr.nil_inv
    cases fuel with
    | zero => exact .pure []
    | succ fuel =>
      unfold afterCommas
      rw [bind_of_ok (accept_of_ne hne)]
      exact .pure []
  | cons hl hitem hrest ih =>
    intro fuel r r' hfuel hr hfollow hne
    cases fuel with
    | zero => simp at hfuel
    | succ fuel =>
      obtain ⟨r₁, hr₁, hr'⟩ := hr.append_inv
      obtain ⟨r₂, hr₂, hr₁⟩ := hr₁.cons_split
      have hnext : follow r₁.current.lexeme := hrest.follows hr' hcomma hfollow
      unfold afterCommas
      rw [bind_of_ok (accept_of_reads hr₂ hl)]
      exact (h hitem hr₁ hnext).bind
        ((ih (by simpa using hfuel) hr' hfollow hne).bind (.pure _))

/-- Items after commas are found, up to what is no comma. -/
theorem finds_moreAfterCommas (h : Finds deep follow item phrase)
    (hcomma : follow (.punctuation .comma)) :
    Finds deep (fun l => follow l ∧ l ≠ .punctuation .comma) (moreAfterCommas item)
      (AfterCommas phrase) := by
  intro ts xs r r' hxs hr hfollow
  unfold moreAfterCommas
  rw [budget_bind]
  have hlen := hxs.length_le
  have hread := hr.length_le
  exact afterCommas_yields h hcomma hxs (by rw [Reader.budget]; omega) hr hfollow.1 hfollow.2

end

end FLang
