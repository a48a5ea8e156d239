import FLang.Proofs.Completeness.Programs

/-!
# The language of the parser

The parser accepts exactly the programs of the grammar, and builds the one tree that each of them
has. What it sees of a list of tokens is its `sentence`: the significant tokens before the first end
of the input. A tree nested deeper than the parser's limit is refused by a diagnostic of its own.

* `Reads.upcoming_eq`, `reads_upcoming`: what a reader still reads, up to the end of the input;
* `functionList_unique`: no tokens derive two lists of functions;
* `parseTokens_iff_derives`: the parser against the grammar.
-/

namespace FLang

open Grammar Parse FLang.Parser

/-- The significant tokens before the first end of the input. -/
def sentence (tokens : List Token) : List Lookahead :=
  (significant false tokens).takeWhile fun t => t.lexeme ≠ .endOfInput

/-- The tokens that a reader is still to read. -/
def Reader.upcoming (r : Reader) : List Lookahead :=
  (r.current :: r.ahead).takeWhile fun t => t.lexeme ≠ .endOfInput

variable {r r' : Reader} {ts : List Lookahead}

/-! ## What a reader still reads -/

theorem Reader.upcoming_of_end (h : r.current.lexeme = .endOfInput) : r.upcoming = [] :=
  List.takeWhile_cons_of_neg (by simpa using h)

theorem Reader.upcoming_of_ne (h : r.current.lexeme ≠ .endOfInput) :
    r.upcoming = r.current :: r.ahead.takeWhile fun t => t.lexeme ≠ .endOfInput :=
  List.takeWhile_cons_of_pos (by simpa using h)

/-- Reading takes tokens off what is still to be read. -/
theorem Reads.upcoming_eq (h : Reads r ts r') : r.upcoming = ts ++ r'.upcoming := by
  induction h with
  | nil => rfl
  | cons ht hn _ ih =>
    rw [Reader.upcoming_of_ne ht, List.cons_append, ← ih]
    congr 1
    rcases Reader.next_eq_ok hn with ⟨-, ha⟩ | ⟨ha, -, he, -⟩
    · rw [ha]
      rfl
    · rw [ha, Reader.upcoming_of_end he]
      rfl

/-- Up to the end of the input, there is one list of tokens to read. -/
theorem Reads.eq_upcoming (h : Reads r ts r') (he : r'.current.lexeme = .endOfInput) :
    ts = r.upcoming := by
  rw [h.upcoming_eq, Reader.upcoming_of_end he, List.append_nil]

/-- A reader without a fault ahead can read up to the end of the input. -/
theorem reads_upcoming : ∀ {ahead : List Lookahead} {r : Reader}, r.ahead = ahead →
    r.fault = none → ∃ r', Reads r r.upcoming r' ∧ r'.current.lexeme = .endOfInput := by
  intro ahead
  induction ahead with
  | nil =>
    intro r ha hf
    by_cases he : r.current.lexeme = .endOfInput
    · rw [Reader.upcoming_of_end he]
      exact ⟨r, .nil, he⟩
    · have hn : ∃ r', r.next = .ok r' ∧ r'.current.lexeme = .endOfInput := by
        unfold Reader.next
        split <;> simp_all
      obtain ⟨r', hn, he'⟩ := hn
      rw [Reader.upcoming_of_ne he, ha]
      exact ⟨r', .one he hn, he'⟩
  | cons t rest ih =>
    intro r ha hf
    by_cases he : r.current.lexeme = .endOfInput
    · rw [Reader.upcoming_of_end he]
      exact ⟨r, .nil, he⟩
    · have hn := Reader.next_of_ahead ha
      let r₁ : Reader := { current := t, ahead := rest, fault := r.fault }
      obtain ⟨r', hr, he'⟩ := ih (r := r₁) rfl hf
      rw [Reader.upcoming_of_ne he, ha]
      exact ⟨r', .cons he hn hr, he'⟩

/-- The reader at the start of some tokens reads their sentence. -/
theorem reads_sentence (tokens : List Token) :
    ∃ r r', Reader.ofStream ⟨tokens, none⟩ = .ok r ∧ Reads r (sentence tokens) r' ∧
      r'.current.lexeme = .endOfInput := by
  have hstart : ∃ r, Reader.ofStream ⟨tokens, none⟩ = .ok r ∧ r.fault = none ∧
      r.upcoming = sentence tokens := by
    unfold Reader.ofStream sentence
    rcases hs : significant false tokens with _ | ⟨first, rest⟩
    · exact ⟨_, rfl, rfl, rfl⟩
    · exact ⟨_, rfl, rfl, rfl⟩
  obtain ⟨r, hr, hf, hs⟩ := hstart
  obtain ⟨r', hread, he⟩ := reads_upcoming rfl hf
  exact ⟨r, r', hr, hs ▸ hread, he⟩

/-! ## One tree -/

section
variable {nested : Nested} {B B' : Phrase Block}

/-- Tokens that a complete rule reads derive one list of functions. -/
theorem functionList_unique
    (h : RuleComplete False (fun _ => True) nested.block B (isMark .leftBrace))
    (hB : FirstIn (isMark .leftBrace) B)
    (h' : RuleComplete False (fun _ => True) nested.block B' (isMark .leftBrace))
    (hB' : FirstIn (isMark .leftBrace) B') {fs : List Function} (hfs : FunctionList B ts fs)
    (hend : r'.current.lexeme = .endOfInput) :
    ∀ {r : Reader} {ts' : List Lookahead} {fs' : List Function}, ts' = ts → Reads r ts r' →
      FunctionList B' ts' fs' → fs = fs' := by
  induction hfs with
  | nil =>
    intro r ts' fs' hts _ hfs'
    cases hfs' with
    | nil => rfl
    | cons hf _ =>
      obtain ⟨t, us, rfl, -⟩ := function_first _ _ hf
      cases hts
  | cons hf _ ih =>
    intro r ts' fs' hts hr hfs'
    cases hfs' with
    | nil =>
      obtain ⟨t, us, rfl, -⟩ := function_first _ _ hf
      cases hts
    | cons hf' hrest' =>
      obtain ⟨r₁, hr₁, hr₂⟩ := hr.append_inv
      rw [← hts] at hr
      obtain ⟨r₂, hr₃, hr₄⟩ := hr.append_inv
      -- both first functions are what the parser finds here
      have hfound := ((functionOf_complete h hB).finds hf hr₁ trivial).eq_ok id
      have hfound' := ((functionOf_complete h' hB').finds hf' hr₃ trivial).eq_ok id
      obtain ⟨hf, hr⟩ := Prod.mk.inj (Except.ok.inj (hfound.symm.trans hfound'))
      obtain rfl := Option.some.inj hf
      subst hr
      have hts' := (hr₄.eq_upcoming hend).trans (hr₂.eq_upcoming hend).symm
      rw [ih hts' hr₂ hrest']

end

theorem RuleComplete.of_not {α : Type} {deep : Prop} {follow : Lexeme → Prop}
    {rule : Parse (Option α)} {phrase : Phrase α} {first : Lexeme → Bool}
    (h : RuleComplete deep follow rule phrase first) (hd : ¬ deep) :
    RuleComplete False follow rule phrase first where
  finds hp hr hf := .ok ((h.finds hp hr hf).eq_ok hd)
  declines := h.declines

/-- A sentence has one tree. -/
theorem derives_unique {tokens : List Token} {program program' : Program}
    (h : Derives (sentence tokens) program) (h' : Derives (sentence tokens) program') :
    program = program' := by
  obtain ⟨n, h⟩ := h
  obtain ⟨m, h'⟩ := h'
  obtain ⟨r, r', -, hr, hend⟩ := reads_sentence tokens
  -- a parser that allows for both depths finds both trees
  have hblock : ∀ {k}, k ≤ max n m → RuleComplete False (fun _ => True)
      (nestedUpTo (max n m)).block (BlockPhrase k) (isMark .leftBrace) := fun hk =>
    (block_complete (max n m) _).of_not (Nat.not_lt.2 hk)
  have heq := functionList_unique (hblock (Nat.le_max_left n m)) (block_first n)
    (hblock (Nat.le_max_right n m)) (block_first m) h hend rfl hr h'
  cases program
  cases program'
  exact congrArg Program.mk heq

/-! ## The parser and the grammar -/

theorem parseTokens_eq {nesting : Nat} {stream : TokenStream} (h : Reader.ofStream stream = .ok r) :
    parseTokens nesting stream = (Parser.program nesting r).map Prod.fst := by
  unfold parseTokens onStream
  rw [h]
  rfl

theorem map_fst_eq_ok {α β : Type} {result : Except Fault (α × β)} {a : α} :
    result.map Prod.fst = .ok a ↔ ∃ b, result = .ok (a, b) := by
  rcases result with e | ⟨a', b⟩
  · simp [Except.map]
  · simp [Except.map]

/-- What the parser builds is a program of the grammar within its depth. -/
theorem phrase_of_parseTokens {nesting : Nat} {tokens : List Token} {program : Program}
    (h : parseTokens nesting ⟨tokens, none⟩ = .ok program) :
    ProgramPhrase nesting (sentence tokens) program ∧
      (program.functions.map Function.name).Nodup := by
  obtain ⟨r, r', hstart, hr, hend⟩ := reads_sentence tokens
  rw [parseTokens_eq hstart] at h
  obtain ⟨r'', h⟩ := map_fst_eq_ok.1 h
  obtain ⟨ts, hts, hend', hfs, hnodup⟩ := programOf_sound (block_sound nesting) h
  rw [hr.eq_upcoming hend, ← hts.eq_upcoming hend']
  exact ⟨hfs, hnodup⟩

/-- A program of the grammar is built, or refused if it is nested deeper than allowed. -/
theorem parseTokens_of_phrase (nesting : Nat) {tokens : List Token} {program : Program} {n : Nat}
    (h : ProgramPhrase n (sentence tokens) program)
    (hnodup : (program.functions.map Function.name).Nodup) :
    parseTokens nesting ⟨tokens, none⟩ = .ok program ∨
      nesting < n ∧ ∃ position,
        parseTokens nesting ⟨tokens, none⟩ = .error (.grammatical position .nestingTooDeep) := by
  obtain ⟨r, r', hstart, hr, hend⟩ := reads_sentence tokens
  rw [parseTokens_eq hstart]
  have hyields : Yields (nesting < n) (Parser.program nesting r) program r' :=
    programOf_yields (block_complete nesting n) (block_first n) h hr hend hnodup
  rcases hyields with hok | ⟨hdeep, position, herror⟩
  · rw [hok]
    exact .inl rfl
  · rw [herror]
    exact .inr ⟨hdeep, position, rfl⟩

/-- **The parser accepts exactly its grammar and builds exactly its tree.** Whatever
nesting it allows, it returns a program if and only if the significant tokens before the end of the
input derive it within that depth and its functions have different names. The depth shows only in a
diagnostic of its own: where that is not raised, the same holds for derivations of every depth. No
tokens derive two programs. -/
theorem parseTokens_iff_derives (nesting : Nat) (tokens : List Token) :
    (∀ program, parseTokens nesting ⟨tokens, none⟩ = .ok program ↔
      ProgramPhrase nesting (sentence tokens) program ∧
        (program.functions.map Function.name).Nodup) ∧
    ((∀ position, parseTokens nesting ⟨tokens, none⟩ ≠
        .error (.grammatical position .nestingTooDeep)) →
      ∀ program, parseTokens nesting ⟨tokens, none⟩ = .ok program ↔
        Derives (sentence tokens) program ∧ (program.functions.map Function.name).Nodup) ∧
    ∀ program program', Derives (sentence tokens) program → Derives (sentence tokens) program' →
      program = program' := by
  refine ⟨fun program => ⟨phrase_of_parseTokens, ?_⟩, fun hdeep program => ⟨?_, ?_⟩,
    fun _ _ => derives_unique⟩
  · rintro ⟨h, hnodup⟩
    exact (parseTokens_of_phrase nesting h hnodup).resolve_right fun hd => Nat.lt_irrefl _ hd.1
  · intro h
    obtain ⟨hphrase, hnodup⟩ := phrase_of_parseTokens h
    exact ⟨⟨_, hphrase⟩, hnodup⟩
  · rintro ⟨⟨n, h⟩, hnodup⟩
    refine (parseTokens_of_phrase nesting h hnodup).resolve_right ?_
    rintro ⟨-, position, herror⟩
    exact hdeep position herror

/-! ## Tokens in front of an error -/

/-- Tokens that stop at an error do not hold the end of the input. -/
theorem ne_endOfInput_of_fault {limits : Limits} {fuel : Nat} {c : Cursor} {fault : Fault}
    (h : (tokenStreamFrom limits fuel c).fault = some fault) :
    ∀ token ∈ (tokenStreamFrom limits fuel c).tokens, token.lexeme ≠ .endOfInput := by
  induction fuel generalizing c with
  | zero => cases h
  | succ fuel ih =>
    unfold tokenStreamFrom at h ⊢
    split
    · simp
    · next token after hnext =>
      simp only [hnext] at h
      split
      · next hend =>
        rw [if_pos hend] at h
        cases h
      · next hend =>
        rw [if_neg hend] at h
        simpa using ⟨hend, ih h⟩

theorem mem_significant {newline : Bool} {tokens : List Token} {t : Lookahead}
    (h : t ∈ significant newline tokens) : t.token ∈ tokens ∧ t.lexeme.isTrivia = false := by
  fun_induction significant newline tokens with
  | case1 => cases h
  | case2 _ _ _ _ ih => exact ⟨.tail _ (ih h).1, (ih h).2⟩
  | case3 _ _ _ _ _ ih => exact ⟨.tail _ (ih h).1, (ih h).2⟩
  | case4 newline token rest hline hcomment ih =>
    rcases List.mem_cons.1 h with rfl | h
    · refine ⟨.head _, ?_⟩
      rw [Lookahead.lexeme]
      cases hl : token.lexeme <;> first | rfl | simp_all
    · exact ⟨.tail _ (ih h).1, (ih h).2⟩

/-- In front of an error, a reader stands on one of the tokens that it was given. -/
theorem Reads.current_mem {r r' : Reader} {ts : List Lookahead} {fault : Fault} (h : Reads r ts r')
    (hfault : r.fault = some fault) : r'.current ∈ r.current :: r.ahead := by
  induction h with
  | nil => exact .head _
  | @cons r r₁ r' ts _ hn _ ih =>
    rcases hahead : r.ahead with _ | ⟨t, rest⟩
    · have herror : r.next = .error fault := by
        unfold Reader.next
        split <;> simp_all
      rw [herror] at hn
      cases hn
    · rw [Reader.next_of_ahead hahead] at hn
      obtain rfl := Except.ok.inj hn
      exact .tail _ (ih hfault)

/-- **A text that can be parsed has tokens to its end.** -/
theorem tokenize_of_parse {limits : Limits} {source : String} {program : Program}
    (h : parse limits source = .ok program) :
    ∃ tokens, tokenStream limits source = ⟨tokens, none⟩ := by
  rcases hfault : (tokenStream limits source).fault with _ | fault
  · refine ⟨(tokenStream limits source).tokens, ?_⟩
    rw [← hfault]
  · exfalso
    have hne := ne_endOfInput_of_fault hfault
    change ∀ token ∈ (tokenStream limits source).tokens, token.lexeme ≠ .endOfInput at hne
    unfold parse at h
    generalize tokenStream limits source = stream at h hfault hne
    obtain ⟨tokens, found⟩ := stream
    obtain rfl : found = some fault := hfault
    rcases hs : significant false tokens with _ | ⟨first, rest⟩
    · have hstart : Reader.ofStream ⟨tokens, some fault⟩ = .error fault := by
        simp only [Reader.ofStream, hs]
      unfold parseTokens Parse.onStream at h
      rw [hstart] at h
      cases h
    · have hstart : Reader.ofStream ⟨tokens, some fault⟩ =
          .ok { current := first, ahead := rest, fault := some fault } := by
        simp only [Reader.ofStream, hs]
      rw [parseTokens_eq hstart] at h
      obtain ⟨r', h⟩ := map_fst_eq_ok.1 h
      obtain ⟨ts, hts, hend, -, -⟩ := programOf_sound (block_sound _) h
      have hmem := hts.current_mem rfl
      exact hne _ (mem_significant (hs ▸ hmem)).1 hend

end FLang
