import FLang.Proofs.Prefixes.FirstError

/-!
# Tokens on demand

The parser takes tokens as it needs them, while `tokenize` reads all of them first. Both stop at the
same error of the lexer, unless the parser finds something wrong with the tokens before it
(`parse_agrees_tokenize`). That error is behind all these tokens, also where it is located at the
start of what could not be read (`tokens_before_fault`).
-/

namespace FLang

open Lexer

variable {limits : Limits}

/-! ## Where the lexer fails -/

/-- A position is another one or comes before it. -/
def Position.UpTo (p q : Position) : Prop :=
  p = q ∨ p.Before q

namespace Position

variable {p q r : Position}

theorem UpTo.refl (p : Position) : p.UpTo p :=
  .inl rfl

theorem Before.trans_upTo (h : p.Before q) (h' : q.UpTo r) : p.Before r := by
  rcases h' with rfl | h'
  · exact h
  · exact h.trans h'

theorem UpTo.trans (h : p.UpTo q) (h' : q.UpTo r) : p.UpTo r := by
  rcases h with rfl | h
  · exact h'
  · exact .inr (h.trans_upTo h')

theorem UpTo.after (h : p.UpTo q) (c : Char) : p.UpTo (q.after c) :=
  h.trans (.inr (before_after q c))

end Position

/-- A cursor does not move back. -/
theorem Cursor.Passes.upTo {c c' : Cursor} {text before : List Char} (h : c.Passes text c')
    (hc : c.position = .behind before) : c.position.UpTo c'.position := by
  rw [h.position before hc, hc]
  cases text with
  | nil => exact .inl (by rw [List.append_nil])
  | cons d text => exact .inr (Position.behind_before before (List.cons_ne_nil d text))

theorem Fault.position_of_lexical {p p' : Position} {cause cause' : Diagnostic.Cause}
    (h : Fault.lexical p cause = .lexical p' cause') : p = p' :=
  Option.some.inj (congrArg Diagnostic.position (Fault.diagnostic.inj h))

/-- A string that cannot be read is located behind its opening quote, or at it. -/
theorem stringBody_error {limit : Nat} {start position p : Position} {chars read : List Char}
    {room : Nat} {cause : Diagnostic.Cause} (hstart : start.UpTo position)
    (h : (stringBody limit start chars position room read).1 = .error (.lexical p cause)) :
    start.UpTo p := by
  fun_induction stringBody limit start chars position room read with
  | case1 =>
    cases h
    exact hstart
  | case2 => cases h
  | case3 =>
    obtain rfl := Fault.position_of_lexical (Except.error.inj h)
    exact hstart.after _
  | case4 =>
    cases h
    exact hstart
  | case5 =>
    cases h
    exact .refl start
  | case6 _ _ _ _ _ _ _ _ ih => exact ih ((hstart.after _).after _) h
  | case7 =>
    cases h
    exact .refl start
  | case8 _ _ _ _ _ _ _ _ ih => exact ih (hstart.after _) h

theorem floatOf_ne_lexical {whole fraction : Digits} {p : Position} {cause : Diagnostic.Cause} :
    floatOf whole fraction ≠ .error (.lexical p cause) := by
  unfold floatOf
  intro h
  split at h
  · split at h <;> cases h
  · split at h <;> cases h

/-- A number that is refused is refused at its first digit. -/
theorem number_error {c : Cursor} {p : Position} {cause : Diagnostic.Cause}
    (h : (Lexer.number limits c).1 = .error (.lexical p cause)) : p = c.position := by
  unfold Lexer.number at h
  split at h
  · cases h
    rfl
  · split at h
    · split at h
      · cases h
        rfl
      · exact absurd (eq_error_of_map h) floatOf_ne_lexical
    · cases h

/-- **An error of the lexer is not located in front of what it could not read.** -/
theorem lexeme_error {c : Cursor} {p : Position} {cause : Diagnostic.Cause}
    (h : (Lexer.lexeme limits c).1 = .error (.lexical p cause)) : c.position.UpTo p := by
  unfold Lexer.lexeme at h
  split at h
  · cases h
  next char hcurrent =>
  split at h
  · cases h
  split at h
  · cases h
  split at h
  · obtain ⟨rest, position⟩ := c
    cases rest with
    | nil => cases hcurrent
    -- an error inside a string is behind its quote; all others are at the first character
    | cons d rest => exact stringBody_error ((Position.UpTo.refl position).after d) h
  split at h
  · unfold Lexer.symbol at h
    split at h
    · cases h
    split at h
    · cases h
    · cases h
      exact .refl _
  split at h
  · exact .inl (number_error h).symm
  split at h
  · unfold Lexer.word at h
    simp only at h
    split at h
    · cases h
      exact .refl _
    · cases h
  · cases h
    exact .refl _

/-- A lexeme that is found takes some characters. -/
theorem lexeme_passes {c after : Cursor} {l : Lexeme} (h : Lexer.lexeme limits c = (.ok l, after))
    (hend : l ≠ .endOfInput) : ∃ text, text ≠ [] ∧ c.Passes text after := by
  obtain ⟨rest, position⟩ := c
  cases rest with
  | nil =>
    obtain ⟨hl, -⟩ := Prod.mk.inj h
    exact absurd (Except.ok.inj hl).symm hend
  | cons d rest =>
    obtain ⟨text, continues, hrest, hlexical, -⟩ := lexical_of_lexeme h
    obtain ⟨e, text', rfl, -⟩ := hlexical.starts
    have hahead := ahead_lexeme limits ⟨d :: rest, position⟩
    rw [h] at hahead
    exact ⟨e :: text', List.cons_ne_nil _ _, hahead.passes hrest⟩

/-- **The tokens before an error of the lexer are in front of it.** -/
theorem tokens_before_fault {fuel : Nat} {c : Cursor} {before : List Char} {p : Position}
    {cause : Diagnostic.Cause} (hc : c.position = .behind before)
    (h : (tokenStreamFrom limits fuel c).fault = some (.lexical p cause)) :
    c.position.UpTo p ∧
      ∀ token ∈ (tokenStreamFrom limits fuel c).tokens, token.position.Before p := by
  induction fuel generalizing c before with
  | zero => cases h
  | succ fuel ih =>
    obtain ⟨gap, -, hpasses, -⟩ := skip_inv c
    have hgap := hpasses.upTo hc
    unfold tokenStreamFrom at h ⊢
    rcases hnext : Lexer.next limits c with ⟨fault | token, after⟩
    · simp only [hnext] at h ⊢
      obtain rfl := Option.some.inj h
      have hfault := lexeme_error (congrArg Prod.fst (next_eq_error.1 hnext))
      exact ⟨hgap.trans hfault, fun token htoken => absurd htoken List.not_mem_nil⟩
    · simp only [hnext] at h ⊢
      split at h
      · cases h
      next hend =>
      rw [if_neg hend]
      obtain ⟨hlexeme, hposition⟩ := next_eq_ok.1 hnext
      obtain ⟨text, hne, htext⟩ := lexeme_passes hlexeme hend
      have hstart := hpasses.position before hc
      have hafter := htext.position _ hstart
      obtain ⟨hp, htokens⟩ := ih hafter h
      -- the token has characters, so its position is strictly in front of where reading goes on
      have hread : (c.skip isBlank).position.Before after.position := by
        rw [hstart, hafter]
        exact Position.behind_before _ hne
      have hfirst : token.position.Before p := hposition ▸ hread.trans_upTo hp
      refine ⟨hgap.trans (.inr (hposition ▸ hfirst)), fun t ht => ?_⟩
      rcases List.mem_cons.1 ht with rfl | ht
      · exact hfirst
      · exact htokens t ht

/-! ## Both ways to read -/

/-- All tokens are asked for, so the error of the lexer is met. -/
theorem tokenize_eq_error {source : String} {fault : Fault} :
    tokenize limits source = .error fault ↔ (tokenStream limits source).fault = some fault := by
  unfold tokenize
  simp only
  split <;> simp_all

/-- Only an integer of too many digits has no description. -/
theorem int_of_describe_error {l : Lexeme} {fault : Fault} (h : l.describe = .error fault) :
    ∃ n : Nat, l = .constant (.int n) ∧ Decimal.fits n = false := by
  unfold Lexeme.describe at h
  split at h
  · cases h
  · next n =>
    refine ⟨n, rfl, ?_⟩
    generalize hfits : Decimal.fits n = fits
    cases fits with
    | true =>
      rw [Decimal.intText?, if_pos hfits] at h
      cases h
    | false => rfl
  all_goals cases h

/-- An integer that was read is within the limit. -/
theorem Lexed.int_le {n : Nat} (h : Lexed limits (.constant (.int n))) : n ≤ limits.intLimit := by
  generalize hl : Lexeme.constant (.int n) = l at h
  cases h with
  | word => exact absurd hl.symm ((Lexeme.ofWord_ne _).2.1 n)
  | int hn =>
    cases hl
    exact hn
  | symbol hsymbol =>
    subst hl
    cases hsymbol
  | _ => cases hl

/-- Every lexeme within the range of floats has a description. -/
theorem Lexed.describe_ne_error {l : Lexeme} (h : Lexed limits l)
    (hlimit : limits.intLimit < 10 ^ 308) (fault : Fault) : l.describe ≠ .error fault := by
  intro herror
  obtain ⟨n, rfl, hfits⟩ := int_of_describe_error herror
  rw [fits_of_lt (h.int_le.trans_lt hlimit) (by decide)] at hfits
  cases hfits

/-- What the parser finds wrong with the tokens in front of an error of the lexer is a syntax error
in front of it. -/
theorem Fault.FoundAt.before {source : String} {ts : List Lookahead} {t : Lookahead} {fault : Fault}
    {position : Position} {cause : Diagnostic.Cause} (h : fault.FoundAt ts t)
    (hlimit : limits.intLimit < 10 ^ 308)
    (hfault : (tokenStream limits source).fault = some (.lexical position cause))
    (hshows : ts ++ [t] <+: significant false (tokenStream limits source).tokens) :
    ∃ position' cause', fault = .grammatical position' cause' ∧ position'.Before position := by
  have hmem : ∀ u ∈ ts ++ [t], u.token ∈ (tokenStream limits source).tokens := fun u hu =>
    (mem_significant (hshows.subset hu)).1
  have hstart : (Cursor.ofText source).position = .behind [] := rfl
  have hbefore : ∀ u ∈ ts ++ [t], u.position.Before position := fun u hu =>
    (tokens_before_fault hstart hfault).2 _ (hmem u hu)
  have ht : t ∈ ts ++ [t] := by simp
  cases h with
  | here cause => exact ⟨_, _, rfl, hbefore t ht⟩
  | redefinition id earlier hname =>
    exact ⟨_, _, rfl, hbefore _ (List.mem_append_left _ hname)⟩
  | unshown hshown =>
    have hend := ne_endOfInput_of_fault hfault _ (hmem t ht)
    have hlexed : Lexed limits t.lexeme := lexed_of_mem_tokenStreamFrom (hmem t ht) hend
    exact absurd hshown (hlexed.describe_ne_error hlimit fault)

/-- **The parser and the lexer agree on the first error.** What is parsed can be read to its end.
Where it cannot, the parser reports the same error of the lexer, or a syntax error in front of it;
it reports no other error of the lexer. -/
theorem parse_agrees_tokenize (limits : Limits) (source : String)
    (hlimit : limits.intLimit < 10 ^ 308) :
    (∀ program, parse limits source = .ok program →
      ∃ tokens, tokenize limits source = .ok tokens) ∧
    (∀ fault, tokenize limits source = .error fault →
      ∃ position cause, fault = .lexical position cause ∧
        (parse limits source = .error fault ∨
          ∃ position' cause', parse limits source = .error (.grammatical position' cause') ∧
            position'.Before position)) ∧
    (∀ position cause, parse limits source = .error (.lexical position cause) →
      tokenize limits source = .error (.lexical position cause)) := by
  refine ⟨fun program h => ?_, fun fault h => ?_, fun position cause h => ?_⟩
  · obtain ⟨tokens, hstream⟩ := tokenize_of_parse h
    exact ⟨tokens, by simp [tokenize, hstream]⟩
  · have hfault := tokenize_eq_error.1 h
    obtain ⟨position, cause, rfl⟩ := isLexical_of_tokenStreamFrom hlimit hfault
    refine ⟨position, cause, rfl, ?_⟩
    cases hparse : parse limits source with
    | ok program =>
      obtain ⟨tokens, hstream⟩ := tokenize_of_parse hparse
      rw [hstream] at hfault
      cases hfault
    | error found =>
      -- the parser has found an error at a token, which is in front of what the lexer could not
      -- read, or it has met the error of the lexer
      rcases parseTokens_error hparse with ⟨r, ts, r', hstart, -, hread, hfail⟩ | hsame
      · rcases TokenStream.Shows.of_reads hstart hread with hshows | ⟨-, hnone, -⟩
        · obtain ⟨position', cause', rfl, hbefore⟩ := hfail.1.before hlimit hfault hshows
          exact .inr ⟨position', cause', rfl, hbefore⟩
        · cases hnone.symm.trans hfault
      · exact .inl (congrArg _ (Option.some.inj (hsame.symm.trans hfault)))
  · rcases parseTokens_error h with ⟨r, ts, r', -, -, -, hfail⟩ | hfault
    · exact absurd ⟨position, cause, rfl⟩ hfail.1.not_isLexical
    · exact tokenize_eq_error.2 hfault

/-- A function without a name, and behind it a string that is not closed. -/
def namelessSource : String :=
  "f() int \x7b\n  return 1\n\x7d\n(x int) \x7b\n  print(\"open\n\x7d"

theorem parse_agrees_tokenize_namelessSource :
    Limits.intLimit {} < 10 ^ 308 ∧
      tokenize {} namelessSource = .error (.lexical ⟨6, 2⟩ .stringNotClosed) ∧
      ∃ position cause, Fault.lexical ⟨6, 2⟩ .stringNotClosed = .lexical position cause ∧
        (parse {} namelessSource = .error (.lexical ⟨6, 2⟩ .stringNotClosed) ∨
          ∃ position' cause', parse {} namelessSource = .error (.grammatical position' cause') ∧
            position'.Before position) := by
  have hlimit : Limits.intLimit {} < 10 ^ 308 := by decide +kernel
  have htokenize : tokenize {} namelessSource = .error (.lexical ⟨6, 2⟩ .stringNotClosed) := by
    decide +kernel
  exact ⟨hlimit, htokenize, (parse_agrees_tokenize {} _ hlimit).2.1 _ htokenize⟩

end FLang
