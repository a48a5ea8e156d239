import FLang.Proofs.Prefixes.OnDemand
import FLang.Proofs.Positions.Runs

/-!
# Readers of one text in two layouts

Two texts of the same significant tokens can differ in where the tokens stand and where lines end
between them. Readers that go through two such texts stay in step.

* `SameAhead` — significant tokens that differ in layout only. Where a line ends counts behind a
  `return` and nowhere else, so the relation carries the lexeme in front of the tokens;
* `Reader.Alike` — readers on such tokens. Nothing is said about a line that ends before the token
  under them: only who has just read a `return` knows that it is the same;
* `InStep` — computations that go on alike from readers that are alike. The operations of `Parse`
  and sequences of them are in step.
-/

namespace FLang

open Grammar Parse

/-! ## Tokens in two layouts -/

/-- Significant tokens that differ in layout only, behind a given lexeme. -/
inductive SameAhead : Lexeme → List Lookahead → List Lookahead → Prop
  | nil (before : Lexeme) : SameAhead before [] []
  | cons {before : Lexeme} {t t' : Lookahead} {ts ts' : List Lookahead} :
    t'.lexeme = t.lexeme →
    (before = .keyword .return → t'.newlineBefore = t.newlineBefore) →
    SameAhead t.lexeme ts ts' →
    SameAhead before (t :: ts) (t' :: ts')

/-- Both layouts have as many tokens to come. -/
theorem SameAhead.length_eq {before : Lexeme} {ts ts' : List Lookahead}
    (h : SameAhead before ts ts') : ts'.length = ts.length := by
  induction h with
  | nil => rfl
  | cons _ _ _ ih => simp [ih]

/-- What some tokens are, newlines and comments apart. -/
def significantLexemes (tokens : List Token) : List Lexeme :=
  (tokens.map Token.lexeme).filter fun l => !l.isTrivia

/-- Whether a line ends before the first significant token of some. -/
def lineEndsFirst (tokens : List Token) : Bool :=
  (tokens.takeWhile fun t => t.lexeme.isTrivia).any fun t => t.lexeme = .endOfLine

/-- For each `return`, whether a line ends between it and the next significant token. -/
def returnBreaks : List Token → List Bool
  | [] => []
  | t :: rest =>
    if t.lexeme = .keyword .return then lineEndsFirst rest :: returnBreaks rest
    else returnBreaks rest

/-- The significant tokens among some, one by one: there is none, or there is a first one. -/
theorem significant_cases (tokens : List Token) :
    ((∀ newline, significant newline tokens = []) ∧ significantLexemes tokens = []) ∨
      ∃ t rest,
        (∀ newline, significant newline tokens =
          ⟨t, newline || lineEndsFirst tokens⟩ :: significant false rest) ∧
        significantLexemes tokens = t.lexeme :: significantLexemes rest ∧
        returnBreaks tokens = returnBreaks (t :: rest) := by
  induction tokens with
  | nil => exact .inl ⟨fun _ => rfl, rfl⟩
  | cons t tokens ih =>
    by_cases htrivia : t.lexeme.isTrivia = true
    · -- a newline or a comment is passed over, and a newline is remembered
      have hskip : ∀ newline, significant newline (t :: tokens) =
          significant (newline || decide (t.lexeme = .endOfLine)) tokens := by
        intro newline
        cases hl : t.lexeme <;> simp_all [significant, Lexeme.isTrivia]
      have hlexemes : significantLexemes (t :: tokens) = significantLexemes tokens := by
        simp [significantLexemes, htrivia]
      have hbreaks : returnBreaks (t :: tokens) = returnBreaks tokens := by
        rw [returnBreaks, if_neg]
        rintro hl
        simp [hl, Lexeme.isTrivia] at htrivia
      have hends : lineEndsFirst (t :: tokens) =
          (decide (t.lexeme = .endOfLine) || lineEndsFirst tokens) := by
        simp [lineEndsFirst, htrivia]
      rcases ih with ⟨hnone, hempty⟩ | ⟨first, rest, hfirst, hrest, hreturns⟩
      · exact .inl ⟨fun newline => (hskip newline).trans (hnone _), hlexemes.trans hempty⟩
      · refine .inr ⟨first, rest, fun newline => ?_, hlexemes.trans hrest, hbreaks.trans hreturns⟩
        rw [hskip, hfirst, hends, Bool.or_assoc]
    · refine .inr ⟨t, tokens, fun newline => ?_, by simp [significantLexemes, htrivia], rfl⟩
      have hends : lineEndsFirst (t :: tokens) = false := by simp [lineEndsFirst, htrivia]
      rw [hends, Bool.or_false]
      cases hl : t.lexeme <;> simp_all [significant, Lexeme.isTrivia]

/-- **Tokens of the same significant lexemes, with the same line ends behind every `return`, differ
in layout only.** -/
theorem sameAhead_significant {before : Lexeme} {newline newline' : Bool}
    {tokens tokens' : List Token}
    (hlexemes : significantLexemes tokens' = significantLexemes tokens)
    (hbreaks : returnBreaks tokens' = returnBreaks tokens)
    (hfirst : before = .keyword .return →
      (newline' || lineEndsFirst tokens') = (newline || lineEndsFirst tokens)) :
    SameAhead before (significant newline tokens) (significant newline' tokens') := by
  -- by induction on the lexemes that both have
  generalize hl : significantLexemes tokens = ls at hlexemes
  induction ls generalizing before newline newline' tokens tokens' with
  | nil =>
    rcases significant_cases tokens with ⟨hnone, -⟩ | ⟨t, rest, -, hrest, -⟩
    · rcases significant_cases tokens' with ⟨hnone', -⟩ | ⟨t', rest', -, hrest', -⟩
      · rw [hnone, hnone']
        exact .nil before
      · cases hlexemes.symm.trans hrest'
    · cases hl.symm.trans hrest
  | cons l ls ih =>
    rcases significant_cases tokens with ⟨-, hempty⟩ | ⟨t, rest, hshow, hrest, hreturns⟩
    · cases hempty.symm.trans hl
    rcases significant_cases tokens' with ⟨-, hempty⟩ | ⟨t', rest', hshow', hrest', hreturns'⟩
    · cases hempty.symm.trans hlexemes
    obtain ⟨htl, htls⟩ := List.cons.inj (hl.symm.trans hrest)
    obtain ⟨htl', htls'⟩ := List.cons.inj (hlexemes.symm.trans hrest')
    rw [hshow, hshow']
    refine .cons (htl'.symm.trans htl) hfirst ?_
    rw [hreturns, hreturns', returnBreaks, returnBreaks, ← htl, ← htl'] at hbreaks
    by_cases hreturn : l = .keyword .return
    · rw [if_pos hreturn, if_pos hreturn] at hbreaks
      obtain ⟨hends, hmore⟩ := List.cons.inj hbreaks
      exact ih hmore (fun _ => by simpa using hends) htls.symm htls'.symm
    · rw [if_neg hreturn, if_neg hreturn] at hbreaks
      exact ih hbreaks (fun heq => absurd (htl.trans heq) hreturn) htls.symm htls'.symm

/-! ## Readers in two layouts -/

/-- Readers at the same place of texts that differ in layout only. -/
structure Reader.Alike (r r' : Reader) : Prop where
  lexeme : r'.current.lexeme = r.current.lexeme
  ahead : SameAhead r.current.lexeme r.ahead r'.ahead
  fault : r'.fault.map Fault.erase = r.fault.map Fault.erase

/-- Loops have the same bound in both layouts. -/
theorem Reader.Alike.budget_eq {r r' : Reader} (h : r.Alike r') : r'.budget = r.budget := by
  rw [Reader.budget, Reader.budget, r.left_eq, r'.left_eq, h.ahead.length_eq]

/-- Results of reading alike: values that agree in `e` and readers that are alike, or faults that
differ in positions only. -/
inductive ReadAlike {α γ : Type} (e : α → γ) :
    Except Fault (α × Reader) → Except Fault (α × Reader) → Prop
  | ok {a a' : α} {r r' : Reader} : e a' = e a → r.Alike r' →
    ReadAlike e (.ok (a, r)) (.ok (a', r'))
  | error {fault fault' : Fault} : fault'.erase = fault.erase →
    ReadAlike e (.error fault) (.error fault')

/-- Readers that are alike move on alike. Behind a `return`, a line ends in both texts or in
none. -/
theorem Reader.Alike.next {r r' : Reader} (h : r.Alike r') :
    (∃ r₁ r₁', r.next = .ok r₁ ∧ r'.next = .ok r₁' ∧ r₁.Alike r₁' ∧
      (r.current.lexeme = .keyword .return →
        r₁'.current.newlineBefore = r₁.current.newlineBefore)) ∨
      ∃ fault fault', r.next = .error fault ∧ r'.next = .error fault' ∧
        fault'.erase = fault.erase := by
  obtain ⟨current, ahead, fault, left, rfl⟩ := r
  obtain ⟨current', ahead', fault', left', rfl⟩ := r'
  obtain ⟨-, hahead, hfault⟩ := h
  cases hahead with
  | cons hl hflag hrest => exact .inl ⟨_, _, rfl, rfl, ⟨hl, hrest, hfault⟩, hflag⟩
  | nil =>
    cases fault with
    | none =>
      obtain rfl : fault' = none := by simpa using hfault
      exact .inl ⟨_, _, rfl, rfl, ⟨rfl, .nil _, rfl⟩, fun _ => rfl⟩
    | some f =>
      obtain ⟨f', rfl, herase⟩ : ∃ f', fault' = some f' ∧ f'.erase = f.erase := by
        simpa using hfault
      exact .inr ⟨f, f', rfl, rfl, herase⟩

/-! ## Computations in two layouts -/

/-- Two computations do the same on texts that differ in layout only: they yield values that agree
in `e`, or fail alike. -/
def InStep {α γ : Type} (e : α → γ) (x x' : Parse α) : Prop :=
  ∀ ⦃r r' : Reader⦄, r.Alike r' → ReadAlike e (x r) (x' r')

/-- A rule does the same on texts that differ in layout only. -/
abbrev LayoutFree {α γ : Type} (e : α → γ) (rule : Parse α) : Prop :=
  InStep e rule rule

namespace InStep

variable {α β γ δ : Type} {e : α → γ} {e' : β → δ} {x x' : Parse α}

/-- Values that are the same up to positions are in step. -/
theorem pure {a a' : α} (h : e a' = e a) : InStep e (Pure.pure a) (Pure.pure a') :=
  fun _ _ hr => .ok h hr

/-- Sequences are in step from two readers, if their parts are. -/
theorem bind_at {f f' : α → Parse β} {r r' : Reader} (h : ReadAlike e (x r) (x' r'))
    (hf : ∀ {a a' : α} {r₁ r₁' : Reader}, x r = .ok (a, r₁) → x' r' = .ok (a', r₁') →
      e a' = e a → r₁.Alike r₁' → ReadAlike e' (f a r₁) (f' a' r₁')) :
    ReadAlike e' ((x >>= f) r) ((x' >>= f') r') := by
  rcases hx : x r with fault | ⟨a, r₁⟩ <;> rcases hx' : x' r' with fault' | ⟨a', r₁'⟩ <;>
    rw [hx, hx'] at h
  · rw [bind_of_error hx, bind_of_error hx']
    cases h with
    | error herase => exact .error herase
  · cases h
  · cases h
  · rw [bind_of_ok hx, bind_of_ok hx']
    cases h with
    | ok he hr => exact hf hx hx' he hr

/-- Sequences are in step, if their parts are. -/
theorem bind {f f' : α → Parse β} (h : InStep e x x')
    (hf : ∀ a a', e a' = e a → InStep e' (f a) (f' a')) : InStep e' (x >>= f) (x' >>= f') :=
  fun _ _ hr => bind_at (h hr) fun _ _ he hr₁ => hf _ _ he hr₁

/-- After a rule that may find nothing. -/
theorem bindOption {f f' : Option α → Parse β} {x x' : Parse (Option α)}
    (h : InStep (Option.map e) x x') (hnone : InStep e' (f none) (f' none))
    (hsome : ∀ a a', e a' = e a → InStep e' (f (some a)) (f' (some a'))) :
    InStep e' (x >>= f) (x' >>= f') := by
  refine h.bind ?_
  rintro (_ | a) (_ | a') he
  · exact hnone
  · cases he
  · cases he
  · exact hsome a a' (Option.some.inj he)

/-- After a rule that finds the same in both layouts. -/
theorem bindSame {f f' : α → Parse β} (h : InStep id x x') (hf : ∀ a, InStep e' (f a) (f' a)) :
    InStep e' (x >>= f) (x' >>= f') := by
  refine h.bind ?_
  rintro a a' (rfl : a' = a)
  exact hf a'

/-- Both sides take the same branch. -/
theorem ite {c : Prop} [Decidable c] {y y' : Parse α} (h : InStep e x x') (h' : InStep e y y') :
    InStep e (if c then x else y) (if c then x' else y') := by
  split
  · exact h
  · exact h'

/-- Both readers stand on the same lexeme, at positions of their own. -/
theorem token_at {f f' : Token → Parse α} {r r' : Reader} (hr : r.Alike r')
    (h : ∀ l position position', r.current.lexeme = l →
      ReadAlike e (f ⟨l, position⟩ r) (f' ⟨l, position'⟩ r')) :
    ReadAlike e ((Parse.token >>= f) r) ((Parse.token >>= f') r') := by
  rw [token_bind, token_bind]
  have hl : (⟨r.current.lexeme, r'.current.position⟩ : Token) = r'.current.token := by
    rw [← hr.lexeme]
  rw [← hl]
  exact h r.current.lexeme r.current.position r'.current.position rfl

/-- The current tokens differ in their positions at most. -/
theorem token {f f' : Token → Parse α}
    (h : ∀ l position position', InStep e (f ⟨l, position⟩) (f' ⟨l, position'⟩)) :
    InStep e (Parse.token >>= f) (Parse.token >>= f') :=
  fun _ _ hr => token_at hr fun l position position' _ => h l position position' hr

theorem lexeme {f f' : Lexeme → Parse α} (h : ∀ l, InStep e (f l) (f' l)) :
    InStep e (Parse.lexeme >>= f) (Parse.lexeme >>= f') := by
  intro r r' hr
  rw [lexeme_bind, lexeme_bind, hr.lexeme]
  exact h _ hr

/-- The bound of a loop is the same on both sides. -/
theorem budget {f f' : Nat → Parse α} (h : ∀ n, InStep e (f n) (f' n)) :
    InStep e (Parse.budget >>= f) (Parse.budget >>= f') := by
  intro r r' hr
  rw [budget_bind, budget_bind, hr.budget_eq]
  exact h _ hr

/-- Errors that are equal without positions are in step. -/
theorem fail {cause cause' : Diagnostic.Cause} (h : cause'.erase = cause.erase) :
    InStep e (Parse.fail cause) (Parse.fail cause') := by
  intro r r' _
  refine .error ?_
  simp [Fault.grammatical, Fault.erase, h]

theorem failAt {position position' : Position} {cause cause' : Diagnostic.Cause}
    (h : cause'.erase = cause.erase) :
    InStep e (Parse.failAt position cause) (Parse.failAt position' cause') := by
  intro r r' _
  refine .error ?_
  simp [Fault.grammatical, Fault.erase, h]

/-- An error that shows a lexeme shows the same one. -/
theorem failShowing (cause : String → Diagnostic.Cause) (l : Lexeme) :
    LayoutFree e (do Parse.fail (cause (← l.describe)) : Parse α) := by
  cases l.describe with
  | ok text => exact fail rfl
  | error fault => exact fun _ _ _ => .error rfl

end InStep

/-- Moving on stands on the same token in both layouts. -/
theorem advance_layoutFree : LayoutFree id advance := by
  intro r r' hr
  rcases hr.next with ⟨r₁, r₁', hn, hn', hr₁, -⟩ | ⟨fault, fault', hn, hn', herase⟩
  · simpa [advance, hn, hn', Except.map] using ReadAlike.ok (e := id) (a := ()) rfl hr₁
  · simpa [advance, hn, hn', Except.map] using ReadAlike.error herase

theorem InStep.advance {α γ : Type} {e : α → γ} {f f' : Unit → Parse α}
    (h : InStep e (f ()) (f' ())) : InStep e (Parse.advance >>= f) (Parse.advance >>= f') :=
  advance_layoutFree.bindSame fun _ => h

/-- Behind a `return`, both readers know whether a line ends. -/
theorem InStep.advance_return {α γ : Type} {e : α → γ} {f f' : Unit → Parse α} {r r' : Reader}
    (hr : r.Alike r') (hl : r.current.lexeme = .keyword .return)
    (h : ∀ {r₁ r₁' : Reader}, r₁.Alike r₁' →
      r₁'.current.newlineBefore = r₁.current.newlineBefore → ReadAlike e (f () r₁) (f' () r₁')) :
    ReadAlike e ((Parse.advance >>= f) r) ((Parse.advance >>= f') r') := by
  refine bind_at (advance_layoutFree hr) fun {_ _ r₁ r₁'} hx hx' _ hr₁ => h hr₁ ?_
  rcases hr.next with ⟨s, s', hn, hn', -, hline⟩ | ⟨fault, fault', hn, -, -⟩
  · obtain rfl := Except.ok.inj (hn.symm.trans (advance_eq_ok.1 hx))
    obtain rfl := Except.ok.inj (hn'.symm.trans (advance_eq_ok.1 hx'))
    exact hline hl
  · cases hn.symm.trans (advance_eq_ok.1 hx)

theorem expect_layoutFree (mark : Punctuation) (cause : Diagnostic.Cause) :
    LayoutFree id (expect mark cause) :=
  .lexeme fun _ => .ite advance_layoutFree (.fail rfl)

theorem accept_layoutFree (mark : Punctuation) : LayoutFree id (accept mark) :=
  .lexeme fun _ => .ite (.advance (.pure rfl)) (.pure rfl)

theorem acceptKeyword_layoutFree (word : Keyword) : LayoutFree id (acceptKeyword word) :=
  .lexeme fun _ => .ite (.advance (.pure rfl)) (.pure rfl)

/-- The name is the same, wherever it stands. -/
theorem expectIdentifier_layoutFree (cause : Diagnostic.Cause) :
    LayoutFree Prod.snd (expectIdentifier cause) := by
  refine .token fun l position position' => ?_
  dsimp only
  split
  · exact .advance (.pure rfl)
  · exact .fail rfl

section
variable {α γ : Type} {e : α → γ}

/-- What has to be there is found in both layouts or missed in both. -/
theorem require_layoutFree {rule : Parse (Option α)} (h : LayoutFree (Option.map e) rule)
    (cause : Diagnostic.Cause) : LayoutFree e (require rule cause) :=
  h.bindOption (.fail rfl) fun _ _ he => .pure he

/-- Items after commas are read in step, by induction on their bound. -/
theorem afterCommas_layoutFree {item : Parse α} (h : LayoutFree e item) (fuel : Nat) :
    LayoutFree (List.map e) (afterCommas item fuel) := by
  induction fuel with
  | zero => exact .pure rfl
  | succ fuel ih =>
    refine (accept_layoutFree .comma).bindSame fun b => .ite ?_ (.pure rfl)
    refine h.bind fun a a' he => ih.bind fun more more' hmore => .pure ?_
    rw [List.map_cons, List.map_cons, he, hmore]

theorem moreAfterCommas_layoutFree {item : Parse α} (h : LayoutFree e item) :
    LayoutFree (List.map e) (moreAfterCommas item) :=
  .budget fun n => afterCommas_layoutFree h n

end

end FLang
