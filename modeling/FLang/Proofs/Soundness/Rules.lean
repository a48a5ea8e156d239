import FLang.Proofs.Reading

/-!
# Sound rules

Every rule of the parser is compared with the phrase of its construct. A rule is *sound* if what it
builds has been read as that phrase, and if it declines without moving and only where no token of
the construct stands (`RuleSound`). This module has the moves that rules are made of: consuming a
mark, a keyword, a name, the name of a type, and items after commas.
-/

namespace FLang

open Grammar Parse FLang.Parser

variable {α : Type} {r r' : Reader}

/-- Whatever a computation yields, it has read as a phrase. -/
def Builds (x : Parse α) (phrase : Phrase α) : Prop :=
  ∀ {r : Reader} {a : α} {r' : Reader}, x r = .ok (a, r') → ∃ ts, Reads r ts r' ∧ phrase ts a

/-- A rule builds phrases only, and declines only where none starts. -/
structure RuleSound (rule : Parse (Option α)) (phrase : Phrase α) (first : Lexeme → Bool) :
    Prop where
  /-- What the rule builds, it has read. -/
  built : ∀ {r : Reader} {a : α} {r' : Reader}, rule r = .ok (some a, r') →
    ∃ ts, Reads r ts r' ∧ phrase ts a
  /-- Where the rule builds nothing, the reader has not moved. -/
  declined : ∀ {r r' : Reader}, rule r = .ok (none, r') →
    r' = r ∧ first r.current.lexeme = false

/-- A computation that does not decline any more. -/
def Commits (x : Parse (Option α)) : Prop :=
  ∀ r r' : Reader, x r ≠ .ok (none, r')

theorem Commits.pure (a : α) : Commits (pure (some a)) := by
  intro r r' h
  cases (pure_eq_ok.1 h).1

/-- Behind a commitment, only what comes last can decline. -/
theorem Commits.bind {β : Type} {x : Parse β} {f : β → Parse (Option α)}
    (h : ∀ b, Commits (f b)) : Commits (x >>= f) := by
  intro r r' hr
  obtain ⟨b, r₁, -, hk⟩ := bind_eq_ok.1 hr
  exact h b _ _ hk

/-- A rule that has committed itself does not decline. -/
theorem not_declined {x : Parse (Option α)} {p : Prop} (hr : x r = .ok (none, r'))
    (h : Commits x) : p :=
  absurd hr (h r r')

theorem pure_none_ne_some {a : α} : (pure none : Parse (Option α)) r ≠ .ok (some a, r') := by
  intro h
  cases (pure_eq_ok.1 h).1

/-- A rule that has found something is done. -/
theorem pure_some_inv {a b : α} (h : (pure (some a) : Parse (Option α)) r = .ok (some b, r')) :
    b = a ∧ r' = r := by
  obtain ⟨hb, hr⟩ := pure_eq_ok.1 h
  exact ⟨Option.some.inj hb, hr⟩

/-! ## The moves of a rule -/

/-- Consuming the token under the reader. -/
theorem reads_of_advance {u : Unit} (ht : r.current.lexeme ≠ .endOfInput)
    (h : advance r = .ok (u, r')) : Reads r [r.current] r' :=
  .one ht (advance_eq_ok.1 h)

/-- A mark that was expected was there and has been read. -/
theorem expect_inv {mark : Punctuation} {cause : Diagnostic.Cause} {u : Unit}
    (h : expect mark cause r = .ok (u, r')) :
    r.current.lexeme = .punctuation mark ∧ Reads r [r.current] r' := by
  unfold expect at h
  rw [lexeme_bind] at h
  split at h
  · next hl => exact ⟨hl, reads_of_advance (by simp [hl]) h⟩
  · exact absurd h fail_ne_ok

/-- A token that is accepted has been read; where another one stands, the reader stays. -/
theorem acceptLexeme_inv {wanted : Lexeme} {b : Bool} (hne : wanted ≠ .endOfInput)
    (h : acceptLexeme wanted r = .ok (b, r')) :
    (b = true ∧ r.current.lexeme = wanted ∧ Reads r [r.current] r') ∨
      (b = false ∧ r.current.lexeme ≠ wanted ∧ r' = r) := by
  unfold acceptLexeme at h
  rw [lexeme_bind] at h
  split at h
  · next hl =>
    obtain ⟨u, r₁, hadv, hp⟩ := bind_eq_ok.1 h
    obtain ⟨rfl, rfl⟩ := pure_eq_ok.1 hp
    exact .inl ⟨rfl, hl, reads_of_advance (hl ▸ hne) hadv⟩
  · next hl =>
    obtain ⟨rfl, rfl⟩ := pure_eq_ok.1 h
    exact .inr ⟨rfl, hl, rfl⟩

/-- A mark was there and has been read, or was not there and nothing has been. -/
theorem accept_inv {mark : Punctuation} {b : Bool} (h : accept mark r = .ok (b, r')) :
    (b = true ∧ r.current.lexeme = .punctuation mark ∧ Reads r [r.current] r') ∨
      (b = false ∧ r.current.lexeme ≠ .punctuation mark ∧ r' = r) := by
  rw [accept_eq] at h
  exact acceptLexeme_inv (by simp) h

theorem acceptKeyword_inv {word : Keyword} {b : Bool} (h : acceptKeyword word r = .ok (b, r')) :
    (b = true ∧ r.current.lexeme = .keyword word ∧ Reads r [r.current] r') ∨
      (b = false ∧ r.current.lexeme ≠ .keyword word ∧ r' = r) := by
  rw [acceptKeyword_eq] at h
  exact acceptLexeme_inv (by simp) h

/-- A name that was expected is built from its token. -/
theorem builds_expectIdentifier {cause : Diagnostic.Cause} :
    Builds (expectIdentifier cause) Name := by
  intro r a r' h
  unfold expectIdentifier at h
  rw [token_bind] at h
  generalize hl : r.current.token.lexeme = l at h
  split at h
  · obtain ⟨u, r₁, hadv, hp⟩ := bind_eq_ok.1 h
    obtain ⟨rfl, rfl⟩ := pure_eq_ok.1 hp
    exact ⟨_, reads_of_advance (by simp [hl]) hadv, .intro hl⟩
  · exact absurd h fail_ne_ok

/-- What was required has been found. -/
theorem require_inv {rule : Parse (Option α)} {cause : Diagnostic.Cause} {a : α}
    (h : require rule cause r = .ok (a, r')) : rule r = .ok (some a, r') := by
  unfold require at h
  obtain ⟨x, r₁, hx, hk⟩ := bind_eq_ok.1 h
  cases x with
  | none => exact absurd hk fail_ne_ok
  | some found =>
    obtain ⟨rfl, rfl⟩ := pure_eq_ok.1 hk
    exact hx

/-- A sound rule, required, builds its phrases. -/
theorem RuleSound.builds_require {rule : Parse (Option α)} {phrase : Phrase α}
    {first : Lexeme → Bool} (h : RuleSound rule phrase first) (cause : Diagnostic.Cause) :
    Builds (require rule cause) phrase :=
  fun hr => h.built (require_inv hr)

/-- Items after commas are built, by induction on their bound. -/
theorem builds_afterCommas {item : Parse α} {phrase : Phrase α} (h : Builds item phrase)
    (fuel : Nat) : Builds (afterCommas item fuel) (AfterCommas phrase) := by
  induction fuel with
  | zero =>
    intro r a r' hr
    obtain ⟨rfl, rfl⟩ := pure_eq_ok.1 hr
    exact ⟨[], .nil, .nil⟩
  | succ fuel ih =>
    intro r a r' hr
    unfold afterCommas at hr
    obtain ⟨b, r₁, hb, hk⟩ := bind_eq_ok.1 hr
    rcases accept_inv hb with ⟨rfl, hl, hcomma⟩ | ⟨rfl, -, rfl⟩
    · obtain ⟨x, r₂, hx, hk⟩ := bind_eq_ok.1 hk
      obtain ⟨xs, r₃, hxs, hk⟩ := bind_eq_ok.1 hk
      obtain ⟨rfl, rfl⟩ := pure_eq_ok.1 hk
      obtain ⟨ts, hts, hitem⟩ := h hx
      obtain ⟨ts', hts', hrest⟩ := ih hxs
      exact ⟨_, (hcomma.append hts).append hts', .cons hl hitem hrest⟩
    · obtain ⟨rfl, rfl⟩ := pure_eq_ok.1 hk
      exact ⟨[], .nil, .nil⟩

theorem builds_moreAfterCommas {item : Parse α} {phrase : Phrase α} (h : Builds item phrase) :
    Builds (moreAfterCommas item) (AfterCommas phrase) := by
  intro r a r' hr
  unfold moreAfterCommas at hr
  rw [budget_bind] at hr
  exact builds_afterCommas h _ hr

/-- Whether a lexeme is the name of a type. -/
def isTypeName : Lexeme → Bool
  | .typeName _ => true
  | _ => false

/-- The name of a type is built, or the rule declines. -/
theorem typeAnnotation_sound : RuleSound typeAnnotation TypeName isTypeName where
  built := by
    intro r a r' hr
    unfold typeAnnotation at hr
    rw [lexeme_bind] at hr
    generalize hl : r.current.lexeme = l at hr
    split at hr
    · obtain ⟨u, r₁, hadv, hk⟩ := bind_eq_ok.1 hr
      obtain ⟨rfl, rfl⟩ := pure_some_inv hk
      exact ⟨_, reads_of_advance (by simp [hl]) hadv, .intro hl⟩
    · exact absurd hr pure_none_ne_some
  declined := by
    intro r r' hr
    unfold typeAnnotation at hr
    rw [lexeme_bind] at hr
    generalize hl : r.current.lexeme = l at hr ⊢
    split at hr
    · exact not_declined hr (.bind fun _ => .pure _)
    · next hne =>
      obtain ⟨-, rfl⟩ := pure_eq_ok.1 hr
      refine ⟨rfl, ?_⟩
      unfold isTypeName
      split
      · exact absurd rfl (hne _)
      · rfl

end FLang
