import Mathlib
import FLang.Proofs.Grammar

/-!
# What a rule reads

A rule moves a reader over tokens. `Reads r ts r'` says that a reader moves from `r` to `r'` over
the tokens `ts`, none of which is the end of the input; soundness and completeness of every rule
are said with it. The rest of the module opens computations of `Parse`: a computation that succeeds
is a chain of computations that succeed (`bind_eq_ok`), and the moves of the reader one by one.
-/

namespace FLang

open Grammar

/-! ## Moving over tokens -/

/-- A reader moves over some tokens, none of them the end of the input. -/
inductive Reads : Reader → List Lookahead → Reader → Prop where
  | nil {r : Reader} : Reads r [] r
  | cons {r r₁ r' : Reader} {ts : List Lookahead} :
      r.current.lexeme ≠ .endOfInput → r.next = .ok r₁ → Reads r₁ ts r' →
      Reads r (r.current :: ts) r'

namespace Reads

variable {r r₁ r' : Reader} {t : Lookahead} {ts ts' : List Lookahead}

/-- A token that is not the last can be read. -/
theorem one (ht : r.current.lexeme ≠ .endOfInput) (hn : r.next = .ok r') :
    Reads r [r.current] r' :=
  .cons ht hn .nil

/-- What is read in two parts is read at once, -/
theorem append (h : Reads r ts r₁) (h' : Reads r₁ ts' r') : Reads r (ts ++ ts') r' := by
  induction h with
  | nil => exact h'
  | cons ht hn _ ih => exact .cons ht hn (ih h')

theorem nil_inv (h : Reads r [] r') : r' = r := by
  cases h
  rfl

/-- Reading a token moves to the next one. -/
theorem cons_inv (h : Reads r (t :: ts) r') :
    r.current = t ∧ t.lexeme ≠ .endOfInput ∧ ∃ r₁, r.next = .ok r₁ ∧ Reads r₁ ts r' := by
  cases h with
  | cons ht hn hr => exact ⟨rfl, ht, _, hn, hr⟩

/-- and what is read at once can be read in two parts. -/
theorem append_inv : ∀ {ts : List Lookahead} {r : Reader}, Reads r (ts ++ ts') r' →
    ∃ r₁, Reads r ts r₁ ∧ Reads r₁ ts' r'
  | [], r, h => ⟨r, .nil, h⟩
  | t :: ts, r, h => by
    obtain ⟨rfl, ht, r₁, hn, hr⟩ := h.cons_inv
    obtain ⟨r₂, h₁, h₂⟩ := append_inv hr
    exact ⟨r₂, .cons ht hn h₁, h₂⟩

/-- At the end of the input nothing is read. -/
theorem at_end (h : Reads r ts r') (he : r.current.lexeme = .endOfInput) : ts = [] := by
  cases h with
  | nil => rfl
  | cons ht _ _ => exact absurd he ht

end Reads

/-! ## The moves of a reader -/

/-- Moving on leaves one token less, or stands on the end of the input behind the last one. -/
theorem Reader.next_eq_ok {r r' : Reader} (h : r.next = .ok r') :
    (r'.left + 1 = r.left ∧ r.ahead = r'.current :: r'.ahead) ∨
      (r.ahead = [] ∧ r.fault = none ∧ r'.current.lexeme = .endOfInput ∧ r'.left = 0) := by
  rcases ha : r.ahead with _ | ⟨t, rest⟩
  · unfold Reader.next at h
    split at h
    · simp_all
    · cases h
    · next hf =>
      obtain rfl := Except.ok.inj h
      exact .inr ⟨rfl, hf, rfl, rfl⟩
  · rw [Reader.next_of_ahead ha] at h
    obtain rfl := Except.ok.inj h
    refine .inl ⟨?_, rfl⟩
    rw [r.left_eq, ha]
    rfl

/-- A reader reads no more tokens than its budget. -/
theorem Reads.length_le {r r' : Reader} {ts : List Lookahead} (h : Reads r ts r') :
    ts.length + r'.left ≤ r.left + 1 := by
  induction h with
  | nil => simp
  | cons _ hn hr ih =>
    rcases Reader.next_eq_ok hn with ⟨hl, -⟩ | ⟨-, -, he, hl⟩
    · rw [List.length_cons]
      omega
    · -- behind the last token stands the end of the input
      obtain rfl := hr.at_end he
      obtain rfl := hr.nil_inv
      simp [hl]

/-! ## Computations that read tokens -/

namespace Parse

variable {α β : Type} {r r' : Reader}

/-- A sequence succeeds exactly if both parts do. -/
theorem bind_eq_ok {x : Parse α} {f : α → Parse β} {b : β} :
    (x >>= f) r = .ok (b, r') ↔ ∃ a r₁, x r = .ok (a, r₁) ∧ f a r₁ = .ok (b, r') := by
  change (x r >>= fun p => f p.1 p.2) = .ok (b, r') ↔ _
  rcases x r with e | ⟨a, r₁⟩
  · constructor
    · intro h
      cases h
    · rintro ⟨a, r₁, h, -⟩
      cases h
  · constructor
    · intro h
      exact ⟨a, r₁, rfl, h⟩
    · rintro ⟨a', r₁', h, h'⟩
      obtain ⟨rfl, rfl⟩ := Prod.mk.inj (Except.ok.inj h)
      exact h'

/-- A sequence goes on with what its first part leaves, -/
theorem bind_of_ok {x : Parse α} {f : α → Parse β} {a : α} {r₁ : Reader}
    (h : x r = .ok (a, r₁)) : (x >>= f) r = f a r₁ := by
  change (x r >>= fun p => f p.1 p.2) = _
  rw [h]
  rfl

/-- and stops at an error of it. -/
theorem bind_of_error {x : Parse α} {f : α → Parse β} {fault : Fault}
    (h : x r = .error fault) : (x >>= f) r = .error fault := by
  change (x r >>= fun p => f p.1 p.2) = _
  rw [h]
  rfl

theorem pure_eq_ok {a b : α} : (pure a : Parse α) r = .ok (b, r') ↔ b = a ∧ r' = r := by
  constructor
  · intro h
    obtain ⟨rfl, rfl⟩ := Prod.mk.inj (Except.ok.inj h)
    exact ⟨rfl, rfl⟩
  · rintro ⟨rfl, rfl⟩
    rfl

/-- An error is not a result. -/
@[simp] theorem fail_ne_ok {cause : Diagnostic.Cause} {p : α × Reader} :
    (fail cause : Parse α) r ≠ .ok p := by
  intro h
  cases h

@[simp] theorem failAt_ne_ok {position : Position} {cause : Diagnostic.Cause} {p : α × Reader} :
    (failAt position cause : Parse α) r ≠ .ok p := by
  intro h
  cases h

/-- To move on is to stand on the next token. -/
theorem advance_eq_ok {u : Unit} : advance r = .ok (u, r') ↔ r.next = .ok r' := by
  unfold advance
  rcases r.next with e | r₁
  · constructor <;> intro h <;> cases h
  · constructor
    · intro h
      obtain ⟨-, rfl⟩ := Prod.mk.inj (Except.ok.inj h)
      rfl
    · intro h
      obtain rfl := Except.ok.inj h
      rfl

/-- Looking at a token does not move the reader. -/
@[simp] theorem token_bind {f : Token → Parse β} : (token >>= f) r = f r.current.token r :=
  bind_of_ok rfl

@[simp] theorem lexeme_bind {f : Lexeme → Parse β} : (lexeme >>= f) r = f r.current.lexeme r :=
  bind_of_ok rfl

@[simp] theorem newlineBefore_bind {f : Bool → Parse β} :
    (newlineBefore >>= f) r = f r.current.newlineBefore r :=
  bind_of_ok rfl

@[simp] theorem budget_bind {f : Nat → Parse β} : (budget >>= f) r = f r.budget r :=
  bind_of_ok rfl

/-- Consumes a token if it is there. Marks and keywords are both accepted like this. -/
def acceptLexeme (wanted : Lexeme) : Parse Bool := do
  if (← lexeme) = wanted then
    advance
    return true
  else return false

/-- Marks and words are accepted in one way. -/
theorem accept_eq (mark : Punctuation) : accept mark = acceptLexeme (.punctuation mark) :=
  rfl

theorem acceptKeyword_eq (word : Keyword) : acceptKeyword word = acceptLexeme (.keyword word) :=
  rfl

end Parse

end FLang
