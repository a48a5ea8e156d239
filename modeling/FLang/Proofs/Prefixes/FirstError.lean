import FLang.Proofs.Lexing.LongestMatch
import FLang.Proofs.Prefixes.Tokens
import FLang.Proofs.Prefixes.Viability.Programs

/-!
# Errors are located at the first offending token

Some tokens are *viable* if a program of the grammar begins with them. Where the parser reports a
syntax error, the tokens before it are viable and with the offending token they are not; where it
reports an error of the lexer, all tokens before that are viable (`errors_at_first_offence`).

* Neither early: the parser looks at one token ahead, so it would run on to the end of the tokens
  before the offending one, if they were cut off by an error of the lexer (`breaksOff_of_first`).
  What breaks off can be completed.
* Nor late: the parser finds every program of the grammar, but for the names of its functions and
  for its depth (`programOf_settles`), and it does the same on all readers that agree up to the
  offending token.
-/

namespace FLang

open Grammar Parse FLang.Parser

/-- A program of the grammar, with the end of the input behind it, begins with some tokens. -/
def Viable (ts : List Lookahead) : Prop :=
  ∃ ts' program last, Derives ts' program ∧ last.lexeme = .endOfInput ∧ ts <+: ts' ++ [last]

/-- A stream shows a significant token behind some others, possibly the end of the input behind its
last token. -/
def TokenStream.Shows (stream : TokenStream) (ts : List Lookahead) (t : Lookahead) : Prop :=
  ts ++ [t] <+: significant false stream.tokens ∨
    ts = significant false stream.tokens ∧ stream.fault = none ∧ t.lexeme = .endOfInput

/-! ## What a reader shows -/

section
variable {r r' : Reader} {ts : List Lookahead}

/-- A reader moves over the tokens that it stands on. -/
theorem reads_of_tokens {t : Lookahead} {more : List Lookahead} {r : Reader}
    (h : r.tokens = ts ++ t :: more) (hinner : ∀ u ∈ ts, u.lexeme ≠ .endOfInput) :
    ∃ r', Reads r ts r' ∧ r'.current = t := by
  induction ts generalizing r with
  | nil => exact ⟨r, .nil, (List.cons.inj h).1⟩
  | cons u ts ih =>
    obtain ⟨hcurrent, hahead⟩ := List.cons.inj h
    obtain ⟨first, rest, hfirst⟩ : ∃ first rest, ts ++ t :: more = first :: rest := by
      cases ts <;> simp
    have hnext := Reader.next_of_ahead (hahead.trans hfirst)
    obtain ⟨r', hr', hlast⟩ :=
      ih (r := { current := first, ahead := rest, fault := r.fault }) hfirst.symm
        fun u hu => hinner u (List.mem_cons_of_mem _ hu)
    have hne : r.current.lexeme ≠ .endOfInput := by
      rw [hcurrent]
      exact hinner u List.mem_cons_self
    refine ⟨r', ?_, hlast⟩
    rw [← hcurrent]
    exact .cons hne hnext hr'

/-- A reader stands on one of its tokens, or on the end of the input behind them. -/
theorem Reads.shows (h : Reads r ts r') :
    ts ++ [r'.current] <+: r.tokens ∨
      ts = r.tokens ∧ r.fault = none ∧ r'.current.lexeme = .endOfInput := by
  induction h with
  | @nil r => exact .inl ⟨r.ahead, rfl⟩
  | @cons r r₁ r' ts _ hn htail ih =>
    rcases hahead : r.ahead with _ | ⟨t, rest⟩
    · rcases Reader.next_eq_ok hn with ⟨-, ha⟩ | ⟨-, hnone, hend, -⟩
      · rw [hahead] at ha
        cases ha
      · obtain rfl := htail.at_end hend
        obtain rfl := htail.nil_inv
        exact .inr ⟨by rw [Reader.tokens, hahead], hnone, hend⟩
    · rw [Reader.next_of_ahead hahead] at hn
      obtain rfl := Except.ok.inj hn
      have htokens : r.tokens = r.current :: (t :: rest) := by rw [Reader.tokens, hahead]
      rw [htokens]
      rcases ih with hprefix | ⟨hall, hnone, hend⟩
      · exact .inl ((List.prefix_cons_inj _).2 hprefix)
      · exact .inr ⟨congrArg _ hall, hnone, hend⟩

/-- A reader starts on the first significant token, or on the end of the input. -/
theorem Reader.ofStream_eq_ok {stream : TokenStream} (h : Reader.ofStream stream = .ok r) :
    r.fault = stream.fault ∧ (r.tokens = significant false stream.tokens ∨
      significant false stream.tokens = [] ∧ stream.fault = none ∧
        r.current.lexeme = .endOfInput) := by
  unfold Reader.ofStream at h
  rcases htokens : significant false stream.tokens with _ | ⟨first, rest⟩
  · rcases hfault : stream.fault with _ | fault
    · simp only [htokens, hfault] at h
      obtain rfl := Except.ok.inj h
      exact ⟨rfl, .inr ⟨rfl, rfl, rfl⟩⟩
    · simp only [htokens, hfault] at h
      cases h
  · simp only [htokens] at h
    obtain rfl := Except.ok.inj h
    exact ⟨rfl, .inl rfl⟩

/-- A reader fails to start only if the lexer fails before the first token. -/
theorem Reader.ofStream_eq_error {stream : TokenStream} {fault : Fault}
    (h : Reader.ofStream stream = .error fault) :
    significant false stream.tokens = [] ∧ stream.fault = some fault := by
  unfold Reader.ofStream at h
  split at h
  · cases h
  · next htokens hfault => exact ⟨htokens, Except.error.inj h ▸ hfault⟩
  · cases h

/-- A reader fails to move on only with the error of the lexer. -/
theorem Reader.fault_of_next {fault : Fault} (h : r.next = .error fault) :
    r.fault = some fault := by
  unfold Reader.next at h
  split at h
  · cases h
  · next hfault => exact Except.error.inj h ▸ hfault
  · cases h

/-- That error stays the same while tokens are read. -/
theorem Reads.fault_eq (h : Reads r ts r') : r'.fault = r.fault := by
  induction h with
  | nil => rfl
  | cons _ hn _ ih =>
    rw [ih]
    unfold Reader.next at hn
    split at hn
    · exact Except.ok.inj hn ▸ rfl
    · cases hn
    · next hfault =>
      obtain rfl := Except.ok.inj hn
      exact hfault.symm

/-- A stream shows the tokens that were read, and then the current one. -/
theorem TokenStream.Shows.of_reads {stream : TokenStream} (hstart : Reader.ofStream stream = .ok r)
    (h : Reads r ts r') : stream.Shows ts r'.current := by
  obtain ⟨hfault, htokens | ⟨hempty, hnone, hend⟩⟩ := Reader.ofStream_eq_ok hstart
  · rw [TokenStream.Shows, ← htokens, ← hfault]
    exact h.shows
  · obtain rfl := h.at_end hend
    obtain rfl := h.nil_inv
    exact .inr ⟨hempty.symm, hnone, hend⟩

end

/-! ## The tokens before an error -/

/-- The start of a list of functions is the start of a program. -/
theorem viable_of_begins {depth : Nat} {ts : List Lookahead}
    (h : Begins (FunctionList (BlockPhrase depth)) ts) : Viable ts := by
  obtain ⟨ts', fs, hfs, hts⟩ := h
  exact ⟨ts', ⟨fs⟩, ⟨⟨.endOfInput, Position.start⟩, false⟩, ⟨depth, hfs⟩, rfl,
    hts.trans (List.prefix_append _ _)⟩

theorem viable_nil : Viable [] :=
  viable_of_begins (.of (.nil : FunctionList (BlockPhrase 0) [] []) List.prefix_rfl)

theorem program_scans (nesting : Nat) : Scans (Parser.program nesting) :=
  programOf_scans (block_scans nesting) (block_sound nesting)

/-- What the lexer broke off can be continued. -/
theorem viable_of_breaksOff {nesting : Nat} {r : Reader}
    (h : BreaksOff (Parser.program nesting) r) : Viable r.tokens := by
  have hleft : (spareMark .leftBrace).lexeme = .punctuation .leftBrace := rfl
  have hright : (spareMark .rightBrace).lexeme = .punctuation .rightBrace := rfl
  have hbody : BodyCompletes (topLevel nesting) (BlockPhrase (nesting + 1)) :=
    ⟨block_sound_of_le (Nat.le_succ _), block_scans _, block_completes _, _, _,
      .intro hleft .nil hright⟩
  exact viable_of_begins (programOf_completes hbody h)

section
variable {α : Type} {x : Parse α} {r r' : Reader} {fault : Fault}

/-- A computation fails at a token behind some others, whatever follows. -/
def FailsAt (x : Parse α) (ts : List Lookahead) (t : Lookahead) (fault : Fault) : Prop :=
  fault.FoundAt ts t ∧ ∀ ⦃s s'⦄, Reads s ts s' → s'.current = t → x s = .error fault

/-- Of all places where a computation fails, one comes first. -/
theorem exists_first_failure (hx : x r = .error fault) {ts : List Lookahead}
    (hread : Reads r ts r') (hfail : FailsAt x ts r'.current fault) :
    ∃ ts r', Reads r ts r' ∧ FailsAt x ts r'.current fault ∧
      ∀ ts₁ t₁ fault₁, ts₁ ++ [t₁] <+: ts → ¬ FailsAt x ts₁ t₁ fault₁ := by
  induction hn : ts.length using Nat.strong_induction_on generalizing ts r' with
  | _ n ih =>
    by_cases hearlier : ∃ ts₁ t₁ fault₁, ts₁ ++ [t₁] <+: ts ∧ FailsAt x ts₁ t₁ fault₁
    · obtain ⟨ts₁, t₁, fault₁, ⟨more, rfl⟩, hfail₁⟩ := hearlier
      rw [List.append_assoc] at hread
      obtain ⟨r₁, hread₁, hrest⟩ := hread.append_inv
      obtain rfl : r₁.current = t₁ := hrest.current_eq
      -- both failures are what the computation does here
      obtain rfl := Except.error.inj (hx.symm.trans (hfail₁.2 hread₁ rfl))
      refine ih ts₁.length ?_ hread₁ hfail₁ rfl
      simp only [List.length_append, List.length_singleton] at hn
      omega
    · exact ⟨ts, r', hread, hfail, fun ts₁ t₁ fault₁ hprefix hfail₁ =>
        hearlier ⟨ts₁, t₁, fault₁, hprefix, hfail₁⟩⟩

/-- **The tokens before the first failure are read to their end**: cut off there by an error of the
lexer, the computation runs into that error. -/
theorem breaksOff_of_first (h : Scans x) (hx : x r = .error fault) {t : Lookahead}
    {ts : List Lookahead} (hread : Reads r (t :: ts) r')
    (hfirst : ∀ ts₁ t₁ fault₁, ts₁ ++ [t₁] <+: t :: ts → ¬ FailsAt x ts₁ t₁ fault₁) :
    ∃ s : Reader, s.tokens = t :: ts ∧ BreaksOff x s := by
  obtain ⟨s, htokens, hfault⟩ : ∃ s : Reader, s.tokens = t :: ts ∧
      s.fault = some (.lexical .start .stringNotClosed) :=
    ⟨{ current := t, ahead := ts, fault := some _ }, rfl, rfl⟩
  refine ⟨s, htokens, ?_⟩
  cases h s with
  | @yields ts₂ s₂ a hs₂ hsame =>
    -- the other reader would yield the same, but it fails
    rw [← htokens, (hs₂.tokens_eq hfault).1] at hread
    obtain ⟨r₂, hread₂, hrest⟩ := hread.append_inv
    rw [hsame hread₂ hrest.current_eq] at hx
    cases hx
  | @fails ts₂ s₂ fault₂ hs₂ hfound hsame =>
    refine absurd ⟨hfound, fun s s' => hsame⟩ (hfirst ts₂ s₂.current fault₂ ⟨s₂.ahead, ?_⟩)
    rw [List.append_assoc, List.singleton_append, ← htokens, (hs₂.tokens_eq hfault).1]
    rfl
  | @stops ts₂ s₂ fault₂ hs₂ _ hnext hsame =>
    have hfault₂ := (hs₂.tokens_eq hfault).2
    have heq : fault₂ = .lexical .start .stringNotClosed :=
      Option.some.inj ((Reader.fault_of_next hnext).symm.trans hfault₂)
    exact ⟨_, _, hfault, heq ▸ hsame hs₂ rfl hnext⟩

end

/-! ## The offending token -/

section
variable {deep : Prop} {nested : Nested} {B : Phrase Block} {r r' : Reader}

/-- A function is refused because of its name. -/
def Redefines {α : Type} (result : Except Fault α) : Prop :=
  ∃ position id earlier, result = .error (.grammatical position (.functionRedefinition id earlier))

/-- The loop over functions finds them all, unless it refuses the name of one. -/
theorem functions_settles
    (h : RuleComplete deep (fun _ => True) nested.block B (isMark .leftBrace))
    (hB : FirstIn (isMark .leftBrace) B) {ts : List Lookahead} {fs : List Function}
    (hfs : FunctionList B ts fs) (hend : r'.current.lexeme = .endOfInput) :
    ∀ {fuel : Nat} {defined : Program} {r : Reader}, fs.length ≤ fuel → Reads r ts r' →
      Redefines (functions nested fuel defined r) ∨
        Yields deep (functions nested fuel defined r) ⟨defined.functions ++ fs⟩ r' := by
  induction hfs with
  | nil =>
    intro fuel defined r _ hr
    obtain rfl := hr.nil_inv
    rw [List.append_nil, functions_at_end hend]
    exact .inr (.ok rfl)
  | @cons ts ts' f fs hf _ ih =>
    intro fuel defined r hfuel hr
    obtain ⟨fuel, rfl⟩ : ∃ n, fuel = n + 1 := ⟨fuel - 1, by simp at hfuel; omega⟩
    obtain ⟨r₁, hr₁, hr₂⟩ := hr.append_inv
    rw [functions]
    rcases (functionOf_complete h hB).finds hf hr₁ trivial with hfound | ⟨hdeep, position, herror⟩
    · rw [bind_of_ok hfound]
      simp only
      cases hnew : defined.find? f.name with
      -- the loop stops at a name that is taken; the grammar does not
      | some earlier => exact .inl ⟨_, _, _, rfl⟩
      | none =>
        rw [List.append_cons defined.functions f fs]
        exact ih (by simpa using hfuel) hr₂
    · rw [bind_of_error herror]
      exact .inr (.inr ⟨hdeep, position, rfl⟩)

/-- **A program of the grammar is found**, unless the name of a function is refused. -/
theorem programOf_settles
    (h : RuleComplete deep (fun _ => True) nested.block B (isMark .leftBrace))
    (hB : FirstIn (isMark .leftBrace) B) {ts : List Lookahead} {program : Program}
    (hfs : FunctionList B ts program.functions) (hr : Reads r ts r')
    (hend : r'.current.lexeme = .endOfInput) :
    Redefines (programOf nested r) ∨ Yields deep (programOf nested r) program r' := by
  have hlen := hfs.length_le
  have hread := hr.length_le
  unfold programOf
  rw [budget_bind]
  have hbudget : program.functions.length ≤ r.budget := by
    rw [Reader.budget]
    omega
  have hsettles : Redefines (functions nested r.budget ⟨[]⟩ r) ∨
      Yields deep (functions nested r.budget ⟨[]⟩ r) ⟨[] ++ program.functions⟩ r' :=
    functions_settles h hB hfs hend hbudget hr
  rcases hsettles with ⟨position, id, earlier, herror⟩ | hfound
  · rw [bind_of_error herror]
    exact .inl ⟨_, _, _, rfl⟩
  · refine .inr (Yields.bind hfound ?_)
    rw [lexeme_bind, if_pos hend]
    exact .pure _

end

theorem Fault.cause_of_grammatical {position position' : Position} {cause cause' : Diagnostic.Cause}
    (h : Fault.grammatical position cause = .grammatical position' cause') : cause = cause' :=
  congrArg Diagnostic.cause (Fault.diagnostic.inj h)

/-- **With the offending token, no program begins.** -/
theorem not_viable_of_failsAt {nesting : Nat} {ts : List Lookahead} {t : Lookahead}
    {position : Position} {cause : Diagnostic.Cause}
    (h : FailsAt (Parser.program nesting) ts t (.grammatical position cause))
    (hname : cause.code ≠ .functionRedefinition) (hdepth : cause.code ≠ .nestingTooDeep) :
    ¬ Viable (ts ++ [t]) := by
  rintro ⟨ts', program, last, ⟨depth, hfs⟩, hend, hprefix⟩
  have hinner : ∀ u ∈ ts', u.lexeme ≠ .endOfInput := inner_functionList (inner_block depth) hfs
  obtain ⟨first, rest, hfirst⟩ : ∃ first rest, ts' ++ [last] = first :: rest := by
    cases ts' <;> simp
  -- the parser on all of that program does the same as on the tokens up to the offending one
  let s : Reader := { current := first, ahead := rest, fault := none }
  have htokens : s.tokens = ts' ++ [last] := hfirst.symm
  obtain ⟨more, hmore⟩ := hprefix
  rw [List.append_assoc, List.singleton_append] at hmore
  have hts : ∀ u ∈ ts, u.lexeme ≠ .endOfInput := by
    intro u hu
    have hlen : ts.length ≤ ts'.length := by
      have := congrArg List.length hmore
      simp only [List.length_append, List.length_cons, List.length_nil] at this
      omega
    have hbegins : ts <+: ts' :=
      List.prefix_of_prefix_length_le ⟨t :: more, hmore⟩ (List.prefix_append _ _) hlen
    exact hinner u (hbegins.subset hu)
  obtain ⟨s₁, hread, hcurrent⟩ := reads_of_tokens (htokens.trans hmore.symm) hts
  obtain ⟨s₂, hread', hlast⟩ := reads_of_tokens htokens hinner
  have hfail := h.2 hread hcurrent
  rw [← hlast] at hend
  have hsettles : Redefines (Parser.program nesting s) ∨
      Yields (nesting < depth) (Parser.program nesting s) program s₂ :=
    programOf_settles (block_complete nesting depth) (block_first depth) hfs hread' hend
  rcases hsettles with ⟨position', id, earlier, herror⟩ | hok | ⟨-, position', herror⟩
  · rw [Fault.cause_of_grammatical (Except.error.inj (hfail.symm.trans herror))] at hname
    exact hname rfl
  · cases hfail.symm.trans hok
  · rw [Fault.cause_of_grammatical (Except.error.inj (hfail.symm.trans herror))] at hdepth
    exact hdepth rfl

/-! ## The error of a stream -/

/-- The parser fails at a token that the reader shows, or with the error of the lexer behind all of
them. -/
theorem program_error {nesting : Nat} {r : Reader} {fault : Fault}
    (h : Parser.program nesting r = .error fault) :
    (∃ ts r', Reads r ts r' ∧ FailsAt (Parser.program nesting) ts r'.current fault) ∨
      r.fault = some fault := by
  cases program_scans nesting r with
  | yields a hread hsame => cases (hsame hread rfl).symm.trans h
  | fails hread hfound hsame =>
    obtain rfl := Except.error.inj (h.symm.trans (hsame hread rfl))
    exact .inl ⟨_, _, hread, hfound, fun _ _ => hsame⟩
  | stops hread _ hnext hsame =>
    obtain rfl := Except.error.inj (h.symm.trans (hsame hread rfl hnext))
    exact .inr (hread.fault_eq ▸ Reader.fault_of_next hnext)

theorem eq_error_of_map {α β : Type} {f : α → β} {result : Except Fault α} {fault : Fault}
    (h : result.map f = .error fault) : result = .error fault := by
  cases result with
  | error e => exact congrArg _ (Except.error.inj h)
  | ok a => cases h

/-- A stream is refused at one of its tokens, or with its own error. -/
theorem parseTokens_error {nesting : Nat} {stream : TokenStream} {fault : Fault}
    (h : parseTokens nesting stream = .error fault) :
    (∃ r ts r', Reader.ofStream stream = .ok r ∧ Parser.program nesting r = .error fault ∧
      Reads r ts r' ∧ FailsAt (Parser.program nesting) ts r'.current fault) ∨
      stream.fault = some fault := by
  cases hstart : Reader.ofStream stream with
  | error fault' =>
    unfold parseTokens Parse.onStream at h
    rw [hstart] at h
    obtain rfl := Except.error.inj h
    exact .inr (Reader.ofStream_eq_error hstart).2
  | ok r =>
    rw [parseTokens_eq hstart] at h
    have hprogram := eq_error_of_map h
    rcases program_error hprogram with ⟨ts, r', hread, hfail⟩ | hfault
    · exact .inl ⟨r, ts, r', rfl, hprogram, hread, hfail⟩
    · exact .inr ((Reader.ofStream_eq_ok hstart).1 ▸ hfault)

theorem Fault.FoundAt.not_isLexical {ts : List Lookahead} {t : Lookahead} {fault : Fault}
    (h : fault.FoundAt ts t) : ¬ fault.IsLexical := by
  rintro ⟨position, cause, rfl⟩
  generalize hfault : Fault.lexical position cause = fault at h
  cases h with
  | here cause => cases hfault
  | redefinition id earlier hname => cases hfault
  | unshown hshown => cases hfault.trans (describe_error hshown)

/-- A syntax error other than the second definition of a name is at the offending token. -/
theorem Fault.FoundAt.position_eq {ts : List Lookahead} {t : Lookahead} {position : Position}
    {cause : Diagnostic.Cause} (h : (Fault.grammatical position cause).FoundAt ts t)
    (hname : cause.code ≠ .functionRedefinition) : t.position = position := by
  generalize hfault : Fault.grammatical position cause = fault at h
  cases h with
  | here cause =>
    have hposition := congrArg Diagnostic.position (Fault.diagnostic.inj hfault)
    exact (Option.some.inj hposition).symm
  | redefinition id earlier _ =>
    rw [Fault.cause_of_grammatical hfault] at hname
    exact absurd rfl hname
  | unshown hshown => cases hfault.trans (describe_error hshown)

/-- The tokens before the first failure are viable. -/
theorem viable_of_first {nesting : Nat} {r r' : Reader} {ts : List Lookahead} {fault : Fault}
    (hx : Parser.program nesting r = .error fault) (hread : Reads r ts r')
    (hfirst : ∀ ts₁ t₁ fault₁, ts₁ ++ [t₁] <+: ts →
      ¬ FailsAt (Parser.program nesting) ts₁ t₁ fault₁) :
    Viable ts := by
  cases ts with
  | nil => exact viable_nil
  | cons t ts =>
    obtain ⟨s, hs, hbreaks⟩ := breaksOff_of_first (program_scans nesting) hx hread hfirst
    exact hs ▸ viable_of_breaksOff hbreaks

/-- The tokens before an error of the lexer are viable, if that is what the parser reports. -/
theorem viable_of_lexical {nesting : Nat} {stream : TokenStream} {position : Position}
    {cause : Diagnostic.Cause} (h : parseTokens nesting stream = .error (.lexical position cause))
    (hfault : stream.fault = some (.lexical position cause)) :
    Viable (significant false stream.tokens) := by
  cases hstart : Reader.ofStream stream with
  | error fault =>
    rw [(Reader.ofStream_eq_error hstart).1]
    exact viable_nil
  | ok r =>
    obtain ⟨hr, htokens | ⟨-, hnone, -⟩⟩ := Reader.ofStream_eq_ok hstart
    · rw [parseTokens_eq hstart] at h
      rw [← htokens]
      exact viable_of_breaksOff ⟨position, cause, hr.trans hfault, eq_error_of_map h⟩
    · cases hnone.symm.trans hfault

/-- **Errors are reported at the first offence**: a syntax error at the first token that no program
has there, an error of the lexer where a program could still go on. Names defined twice and blocks
nested too deep apart, which are no matter of the grammar. It does not matter how much nesting the
parser allows. -/
theorem errors_at_first_offence (nesting : Nat) (stream : TokenStream)
    (hlexer : ∀ fault ∈ stream.fault, fault.IsLexical) :
    (∀ position cause, parseTokens nesting stream = .error (.grammatical position cause) →
      cause.code ≠ .functionRedefinition → cause.code ≠ .nestingTooDeep →
      ∃ ts t, stream.Shows ts t ∧ t.position = position ∧ Viable ts ∧ ¬ Viable (ts ++ [t])) ∧
    (∀ position cause, parseTokens nesting stream = .error (.lexical position cause) →
      stream.fault = some (.lexical position cause) ∧
        Viable (significant false stream.tokens)) := by
  constructor
  · intro position cause h hname hdepth
    rcases parseTokens_error h with ⟨r, ts, r', hstart, hprogram, hread, hfail⟩ | hfault
    · obtain ⟨ts, r', hread, hfail, hfirst⟩ := exists_first_failure hprogram hread hfail
      exact ⟨ts, r'.current, .of_reads hstart hread, hfail.1.position_eq hname,
        viable_of_first hprogram hread hfirst, not_viable_of_failsAt hfail hname hdepth⟩
    · obtain ⟨position', cause', hlexical⟩ := hlexer _ hfault
      cases hlexical
  · intro position cause h
    rcases parseTokens_error h with ⟨r, ts, r', -, -, -, hfail⟩ | hfault
    · exact absurd ⟨position, cause, rfl⟩ hfail.1.not_isLexical
    · exact ⟨hfault, viable_of_lexical h hfault⟩

/-- A sum without its second operand, and behind it a string that is not closed. -/
def halfSumSource : String :=
  "main(n int) int \x7b\n  return n +\n\x7d \"open"

theorem errors_at_first_offence_halfSumSource :
    (∀ fault ∈ (tokenStream {} halfSumSource).fault, fault.IsLexical) ∧
      parse {} halfSumSource = .error (.grammatical ⟨3, 1⟩ (.missingExpression "'+'")) ∧
      ∃ ts t, (tokenStream {} halfSumSource).Shows ts t ∧ t.position = ⟨3, 1⟩ ∧ Viable ts ∧
        ¬ Viable (ts ++ [t]) := by
  have hlexer : ∀ fault ∈ (tokenStream {} halfSumSource).fault, fault.IsLexical := by
    have hfault : (tokenStream {} halfSumSource).fault =
        some (.lexical ⟨3, 8⟩ .stringNotClosed) := by
      decide +kernel
    rw [hfault]
    rintro fault ⟨⟩
    exact ⟨_, _, rfl⟩
  have herror : (parse {} halfSumSource).map (fun _ => ()) =
      .error (.grammatical ⟨3, 1⟩ (.missingExpression "'+'")) := by
    decide +kernel
  have hparse := eq_error_of_map herror
  exact ⟨hlexer, hparse, (errors_at_first_offence _ _ hlexer).1 _ _ hparse (by decide) (by decide)⟩

end FLang
