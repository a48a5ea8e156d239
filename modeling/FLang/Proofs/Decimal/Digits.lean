import Mathlib
import FLang.Proofs.Decimal.Texts

/-!
# Digits and numbers

A run of digits denotes a number, and a number is written without leading zeros.

* `natOfDigits_eq_decimalValue` — each digit counts for the power of ten at its place;
* `natOfDigits_natDigits` — the digits of a number denote it;
* `natDigits_natOfDigits` — the digits of the number that a run denotes are the run without the
  zeros that it begins with;
* `leftpad_natDigits` — with as many zeros as it takes to get their count back, they are the run.
-/

namespace FLang

open Decimal

/-! ## The number of some digits -/

/-- A number is written in digits. -/
theorem isDigit_of_mem_natDigits {n : Nat} {c : Char} (h : c ∈ Decimal.natDigits n) :
    c.isDigit = true :=
  Nat.isDigit_of_mem_toDigits (by decide) (by decide) h

/-- What is written for a number reads back as that number. -/
@[simp] theorem natOfDigits_natDigits (n : Nat) : Decimal.natOfDigits (Decimal.natDigits n) = n :=
  Nat.ofDigitChars_toDigits (by decide) (by decide)

theorem natDigits_ne_nil (n : Nat) : Decimal.natDigits n ≠ [] :=
  Nat.toDigits_ne_nil

/-- Digits in front of other digits are worth their power of ten. -/
theorem natOfDigits_append (whole fraction : List Char) :
    Decimal.natOfDigits (whole ++ fraction) =
      Decimal.natOfDigits whole * Nat.pow 10 fraction.length + Decimal.natOfDigits fraction := by
  unfold Decimal.natOfDigits
  rw [Nat.ofDigitChars_append, Nat.ofDigitChars_eq_ofDigitChars_zero, Nat.mul_comm]
  rfl

@[simp] theorem natOfDigits_singleton (c : Char) :
    Decimal.natOfDigits [c] = c.toNat - '0'.toNat := by
  simp [Decimal.natOfDigits, Nat.ofDigitChars]

/-- The number of a run of digits, by the power of ten at each place. -/
def decimalValue : List Char → Nat
  | [] => 0
  | c :: run => (c.toNat - '0'.toNat) * 10 ^ run.length + decimalValue run

/-- Two ways to add up the digits of a run agree. -/
theorem natOfDigits_eq_decimalValue (run : List Char) :
    Decimal.natOfDigits run = decimalValue run := by
  induction run with
  | nil => rfl
  | cons c run ih =>
    rw [← List.singleton_append, natOfDigits_append, natOfDigits_singleton, ih]
    rfl

@[simp] theorem natOfDigits_zeros (n : Nat) : Decimal.natOfDigits (List.replicate n '0') = 0 := by
  induction n with
  | zero => rfl
  | succ n ih =>
    have hzero : Decimal.natOfDigits ['0'] = 0 := by decide
    rw [List.replicate_succ', natOfDigits_append, ih, hzero, Nat.zero_mul]

/-- A run of digits stays below the power of ten that has one digit more. -/
theorem natOfDigits_lt {run : List Char} (h : ∀ c ∈ run, c.isDigit = true) :
    Decimal.natOfDigits run < 10 ^ run.length := by
  induction run with
  | nil => decide
  | cons c run ih =>
    have hc : Decimal.natOfDigits [c] < 10 := by
      have hdigit : 48 ≤ c.toNat ∧ c.toNat ≤ 57 :=
        Char.isDigit_iff_toNat.1 (h c (List.mem_cons_self ..))
      have hvalue : Decimal.natOfDigits [c] = c.toNat - 48 := natOfDigits_singleton c
      omega
    have hrun := ih fun d hd => h d (List.mem_cons_of_mem c hd)
    have happend := natOfDigits_append [c] run
    rw [List.singleton_append, Nat.pow_eq] at happend
    rw [happend, List.length_cons, Nat.pow_succ]
    have := Nat.mul_le_mul_right (10 ^ run.length) (Nat.le_of_lt_succ hc)
    omega

/-! ## The digits of a number -/

/-- Digits without the zeros that they begin with; a single zero if there is nothing else. -/
def stripZeros (digits : List Char) : List Char :=
  match digits.dropWhile (· = '0') with
  | [] => ['0']
  | first :: rest => first :: rest

@[simp] theorem stripZeros_zero_cons (digits : List Char) :
    stripZeros ('0' :: digits) = stripZeros digits := by
  simp [stripZeros]

/-- Behind a number other than zero every digit is kept. -/
theorem toDigits_ofDigitChars {run : List Char} (h : AllDigits run) {n : Nat} (hn : 0 < n) :
    Nat.toDigits 10 (Nat.ofDigitChars 10 run n) = Nat.toDigits 10 n ++ run := by
  induction run generalizing n with
  | nil => simp
  | cons c run ih =>
    have hc := h c (List.mem_cons_self ..)
    obtain ⟨hlow, hhigh⟩ : 48 ≤ c.toNat ∧ c.toNat ≤ 57 := Char.isDigit_iff_toNat.1 hc
    have hdigit : Nat.toDigits 10 (c.toNat - 48) = [c] := by
      rw [Nat.toDigits_of_lt_base (by omega), digitChar_of_isDigit hc]
    have hpos : 0 < 10 * n + (c.toNat - 48) := by omega
    have hstep : Nat.toDigits 10 (10 * n + (c.toNat - 48)) = Nat.toDigits 10 n ++ [c] := by
      rw [← Nat.toDigits_append_toDigits (by decide) hn (by omega), hdigit]
    have hrun : AllDigits run := fun d hd => h d (List.mem_cons_of_mem c hd)
    rw [Nat.ofDigitChars_cons, show '0'.toNat = 48 from rfl, ih hrun hpos, hstep,
      List.append_assoc, List.singleton_append]

/-- **The digits of the number that a run denotes are the run without its zeros.** -/
theorem natDigits_natOfDigits {run : List Char} (h : AllDigits run) :
    natDigits (natOfDigits run) = stripZeros run := by
  induction run with
  | nil => rfl
  | cons c run ih =>
    have hrun : AllDigits run := fun d hd => h d (List.mem_cons_of_mem c hd)
    by_cases hc : c = '0'
    · subst hc
      rw [stripZeros_zero_cons, ← ih hrun]
      rfl
    · -- from the first digit on that is no zero, every digit is kept
      have hdigit := h c (List.mem_cons_self ..)
      obtain ⟨hlow, hhigh⟩ : 48 ≤ c.toNat ∧ c.toNat ≤ 57 := Char.isDigit_iff_toNat.1 hdigit
      have hpos : 0 < c.toNat - 48 := by
        have : c.toNat ≠ 48 := fun heq => hc (Char.toNat_inj.1 heq)
        omega
      have hvalue : natOfDigits (c :: run) = Nat.ofDigitChars 10 run (c.toNat - 48) := by
        rw [natOfDigits, Nat.ofDigitChars_cons, Nat.mul_zero, Nat.zero_add]
        rfl
      rw [natDigits, hvalue, toDigits_ofDigitChars hrun hpos, Nat.toDigits_of_lt_base (by omega),
        digitChar_of_isDigit hdigit]
      simp [stripZeros, hc]

/-- Zeros that are taken away make a run no longer. -/
theorem length_stripZeros_le {run : List Char} (hne : run ≠ []) :
    (stripZeros run).length ≤ run.length := by
  have hlength := (List.dropWhile_suffix (· = '0') (l := run)).length_le
  have hpos := List.length_pos_iff.2 hne
  unfold stripZeros
  split
  · exact hpos
  · next heq => rwa [heq] at hlength

/-- **Filled up with zeros to the length of the run, they are the run.** -/
theorem leftpad_natDigits {run : List Char} (hne : run ≠ []) (h : AllDigits run) :
    List.leftpad run.length '0' (natDigits (natOfDigits run)) = run := by
  rw [natDigits_natOfDigits h]
  induction run with
  | nil => exact absurd rfl hne
  | cons c run ih =>
    by_cases hc : c = '0'
    · subst hc
      rw [stripZeros_zero_cons]
      cases run with
      | nil => rfl
      | cons d run =>
        -- what is shown of the shorter run leaves room for one more zero
        have hle := length_stripZeros_le (List.cons_ne_nil d run)
        have ih := ih (List.cons_ne_nil d run) fun e he => h e (List.mem_cons_of_mem _ he)
        simp only [List.leftpad] at ih ⊢
        rw [List.length_cons, Nat.succ_sub hle, List.replicate_succ, List.cons_append, ih]
    · simp [stripZeros, hc, List.leftpad]

end FLang
