import Mathlib.Logic.Function.Iterate
import FLang.Proofs.Lexing.Cursors

/-!
# The characters of a text and their positions

A cursor goes through the text in which every pair of a carriage return and a newline is one
newline, and its position counts the newlines and characters behind it (`text_read_exactly`).

* `withoutReturns` is that text, said without recursion: by the character behind each character;
* `Scanner` reads the same text on demand. A carriage return can be told from the first half of a
  pair only by the character behind it, so a scanner reads one character too far and holds it back.
  It counts a line when it leaves the newline that ends it.

A scanner stays in step with a cursor (`Shows.next`): what it holds back and what it has not read
yet are together what the cursor has left.
-/

namespace FLang

/-! ## Pairs of a carriage return and a newline -/

/-- A text without the carriage returns that stand directly before a newline. -/
def withoutReturns (chars : List Char) : List Char :=
  (chars.zipIdx.filter fun p => ¬ (p.1 = '\r' ∧ chars[p.2 + 1]? = some '\n')).map Prod.fst

theorem withoutReturns_cons (c : Char) (rest : List Char) :
    withoutReturns (c :: rest) =
      if c = '\r' ∧ rest.head? = some '\n' then withoutReturns rest
      else c :: withoutReturns rest := by
  have hshift : (((rest.zipIdx 1).filter fun p =>
      ¬ (p.1 = '\r' ∧ (c :: rest)[p.2 + 1]? = some '\n')).map Prod.fst) = withoutReturns rest := by
    rw [List.zipIdx_succ, List.filter_map, List.map_map]
    rfl
  have hbehind : (c :: rest)[0 + 1]? = rest.head? := List.head?_eq_getElem?.symm
  rw [withoutReturns, List.zipIdx_cons, List.filter_cons]
  simp only [hbehind]
  by_cases hpair : c = '\r' ∧ rest.head? = some '\n'
  · rw [if_pos hpair, if_neg (fun h => absurd hpair (of_decide_eq_true h)), hshift]
  · rw [if_neg hpair, if_pos (decide_eq_true hpair), List.map_cons, hshift]

/-- The characters of a source are those of the text without such returns. -/
theorem sourceChars_eq_withoutReturns (chars : List Char) :
    sourceChars chars = withoutReturns chars := by
  fun_induction sourceChars chars with
  | case1 => rfl
  | case2 rest ih =>
    rw [withoutReturns_cons, if_pos ⟨rfl, rfl⟩, withoutReturns_cons, if_neg (by simp), ih]
  | case3 c rest hpair ih =>
    rw [withoutReturns_cons, if_neg, ih]
    rintro ⟨rfl, hnewline⟩
    obtain ⟨more, rfl⟩ := List.head?_eq_some_iff.1 hnewline
    exact hpair more rfl rfl

theorem sourceChars_cons (c : Char) (rest : List Char) :
    sourceChars (c :: rest) =
      if c = '\r' ∧ rest.head? = some '\n' then sourceChars rest else c :: sourceChars rest := by
  simp only [sourceChars_eq_withoutReturns]
  exact withoutReturns_cons c rest

/-! ## Cursors -/

namespace Cursor

/-- Moving on drops characters. -/
theorem rest_advanceBy (k : Nat) (c : Cursor) : (advanceBy k c).rest = c.rest.drop k := by
  induction k generalizing c with
  | zero => rfl
  | succ k ih =>
    obtain ⟨rest, position⟩ := c
    cases rest with
    | nil => exact (ih _).trans (List.drop_nil.trans List.drop_nil.symm)
    | cons char rest => exact ih _

theorem advanceBy_succ (k : Nat) (c : Cursor) : advanceBy (k + 1) c = (advanceBy k c).advance := by
  induction k generalizing c with
  | zero => rfl
  | succ k ih => exact ih c.advance

/-- A cursor that has made some steps from the start of a text has that many characters behind it,
unless the text is shorter. -/
theorem position_advanceBy (k : Nat) (text : String) :
    (advanceBy k (.ofText text)).position = .behind ((sourceChars text.toList).take k) := by
  have hahead := ahead_advanceBy k (.ofText text)
  have hrest : (ofText text).rest =
      (sourceChars text.toList).take k ++ (advanceBy k (.ofText text)).rest := by
    rw [rest_advanceBy]
    exact (List.take_append_drop k _).symm
  exact (hahead.passes hrest).position [] rfl

/-- At the end, there is nothing to move on to. -/
theorem advance_of_current {c : Cursor} (h : c.current = none) : c.advance = c := by
  obtain ⟨rest, position⟩ := c
  obtain rfl : rest = [] := List.head?_eq_none_iff.1 h
  rfl

end Cursor

/-! ## Reading on demand -/

/-- A reader of a text that takes one character after the other. The end of the text is read like a
character. -/
structure Scanner where
  /-- What has not been read. -/
  unread : List Char
  /-- What was read too far. -/
  held : Option (Option Char)
  /-- What the scanner stands on; nothing before its first step. -/
  current : Option (Option Char)
  /-- The position of what the scanner stands on. -/
  position : Position

namespace Scanner

/-- The next character, or the end of the text. -/
def read (s : Scanner) : Option Char × Scanner :=
  match s.held, s.unread with
  | some char, _ => (char, { s with held := none })
  | none, [] => (none, s)
  | none, char :: rest => (some char, { s with unread := rest })

/-- The next character of the text in which a pair of a carriage return and a newline is one
newline. -/
def readUnified (s : Scanner) : Option Char × Scanner :=
  let first := s.read
  if first.1 = some '\r' then
    let following := first.2.read
    if following.1 = some '\n' then following
    else (first.1, { following.2 with held := some following.1 })
  else first

/-- The scanner on the character that it reads next. -/
def onward (s : Scanner) : Scanner :=
  let found := s.readUnified
  { found.2 with
    current := some found.1
    position := ⟨found.2.position.line, found.2.position.column + 1⟩ }

/-- The scanner at the end of a line, once it counts the line. -/
def leaveLine (s : Scanner) : Scanner :=
  if s.current = some (some '\n') then { s with position := ⟨s.position.line + 1, 0⟩ } else s

/-- One character further; at the end of the text there is none. -/
def next (s : Scanner) : Scanner :=
  if s.leaveLine.current = some none then s.leaveLine else s.leaveLine.onward

/-- The scanner on the first character of a text. -/
def ofText (text : String) : Scanner :=
  next { unread := text.toList, held := none, current := none, position := ⟨1, 0⟩ }

/-- What the scanner is still to read. -/
def ahead (s : Scanner) : List Char :=
  (s.held.bind id).toList ++ s.unread

/-- Behind the end of the text there is nothing to read. -/
def Ordered (s : Scanner) : Prop :=
  s.held = some none → s.unread = []

/-- What is read is the first character of what was ahead. -/
theorem read_eq {s : Scanner} (h : s.Ordered) :
    s.read.1 = s.ahead.head? ∧ s.read.2.ahead = s.ahead.tail ∧ s.read.2.held = none ∧
      s.read.2.position = s.position := by
  obtain ⟨unread, held, current, position⟩ := s
  rcases held with _ | _ | char
  · cases unread <;> exact ⟨rfl, rfl, rfl, rfl⟩
  · obtain rfl : unread = [] := h rfl
    exact ⟨rfl, rfl, rfl, rfl⟩
  · exact ⟨rfl, rfl, rfl, rfl⟩

theorem ordered_of_held {s : Scanner} (h : s.held = none) : s.Ordered := by
  intro hend
  rw [h] at hend
  cases hend

theorem ahead_of_held {s : Scanner} (h : s.held = none) : s.ahead = s.unread := by
  rw [ahead, h]
  rfl

/-- **What is read is the first character of the unified text**, and the rest of that text is still
ahead. -/
theorem readUnified_eq {s : Scanner} (h : s.Ordered) :
    s.readUnified.1 = (sourceChars s.ahead).head? ∧
      sourceChars s.readUnified.2.ahead = (sourceChars s.ahead).tail ∧
      s.readUnified.2.Ordered ∧ s.readUnified.2.position = s.position := by
  obtain ⟨hchar, hafter, hheld, hposition⟩ := read_eq h
  obtain ⟨hfollowing, hlast, hnone, hsame⟩ := read_eq (ordered_of_held hheld)
  rw [hafter] at hfollowing hlast
  rw [ahead_of_held hnone] at hlast
  unfold readUnified
  simp only
  rcases hahead : s.ahead with _ | ⟨char, rest⟩
  · rw [hahead] at hchar hafter
    rw [if_neg (by rw [hchar]; decide), hchar, hafter]
    exact ⟨rfl, rfl, ordered_of_held hheld, hposition⟩
  rw [hahead, List.tail_cons] at hafter hfollowing hlast
  rw [hahead, List.head?_cons] at hchar
  rw [sourceChars_cons]
  by_cases hreturn : char = '\r'
  · subst hreturn
    rw [if_pos hchar]
    by_cases hnewline : rest.head? = some '\n'
    · -- a pair: the newline is read and nothing is held back
      obtain ⟨more, rfl⟩ := List.head?_eq_some_iff.1 hnewline
      rw [if_pos (hfollowing.trans hnewline), if_pos ⟨rfl, hnewline⟩, hfollowing,
        ahead_of_held hnone, hlast]
      exact ⟨rfl, rfl, ordered_of_held hnone, hsame.trans hposition⟩
    · -- a carriage return of its own: what was read behind it is held back
      rw [if_neg (by rwa [hfollowing]), if_neg (fun hpair => hnewline hpair.2)]
      refine ⟨hchar, congrArg sourceChars ?_, ?_, hsame.trans hposition⟩
      · rw [ahead, hfollowing, hlast]
        cases rest <;> rfl
      · intro hend
        rw [hfollowing] at hend
        rw [hlast, List.head?_eq_none_iff.1 (Option.some.inj hend)]
        rfl
  · rw [if_neg (by rw [hchar]; simpa using hreturn), if_neg (fun hpair => hreturn hpair.1), hchar,
      hafter]
    exact ⟨rfl, rfl, ordered_of_held hheld, hposition⟩

end Scanner

/-! ## A scanner and a cursor -/

/-- A scanner stands on the same character as a cursor, at the same position, and has the same text
ahead. -/
structure Shows (s : Scanner) (c : Cursor) : Prop where
  current : s.current = some c.current
  position : s.position = c.position
  rest : sourceChars s.ahead = c.rest.tail
  ordered : s.Ordered

namespace Shows

open Scanner

variable {s : Scanner} {c : Cursor}

/-- Moving on in the text moves the cursor on. -/
theorem onward (h : s.Ordered) :
    Shows s.onward ⟨sourceChars s.ahead, s.position.line, s.position.column + 1⟩ := by
  obtain ⟨hchar, hrest, hordered, hposition⟩ := readUnified_eq h
  refine ⟨congrArg some hchar, ?_, hrest, hordered⟩
  rw [← hposition]
  rfl

/-- The first step of a scanner brings it onto the first character. -/
theorem ofText (text : String) : Shows (.ofText text) (.ofText text) :=
  onward (ordered_of_held rfl)

/-- At the end of the text a scanner stays as it is. -/
theorem next_at_end (h : Shows s c) (hend : c.current = none) : s.next = s := by
  have hcurrent : s.current = some none := h.current.trans (congrArg some hend)
  have hleave : s.leaveLine = s := if_neg (by rw [hcurrent]; decide)
  rw [Scanner.next, hleave, if_pos hcurrent]

/-- **A scanner and a cursor stay in step.** -/
theorem next (h : Shows s c) : Shows s.next c.advance := by
  obtain ⟨rest, position⟩ := c
  cases rest with
  | nil => rwa [h.next_at_end rfl]
  | cons char rest =>
    have hcurrent : s.current = some (some char) := h.current
    have hstart : Shows s.next ⟨sourceChars s.ahead, s.position.after char⟩ := by
      unfold Scanner.next Position.after
      by_cases hnewline : char = '\n'
      · have hleave : s.leaveLine = { s with position := ⟨s.position.line + 1, 0⟩ } :=
          if_pos (by rw [hcurrent, hnewline])
        rw [hleave, if_pos hnewline, if_neg (by simp [hcurrent])]
        exact onward h.ordered
      · have hleave : s.leaveLine = s := if_neg (by simpa [hcurrent] using hnewline)
        rw [hleave, if_neg hnewline, if_neg (by simp [hcurrent])]
        exact onward h.ordered
    rw [h.rest, h.position] at hstart
    exact hstart

/-- **After any number of steps, the scanner shows what the cursor does.** -/
theorem iterate (text : String) (k : Nat) :
    Shows (Scanner.next^[k] (.ofText text)) (Cursor.advanceBy k (.ofText text)) := by
  induction k with
  | zero => exact ofText text
  | succ k ih =>
    rw [Function.iterate_succ_apply', Cursor.advanceBy_succ]
    exact ih.next

end Shows

/-! ## The text that is read -/

/-- **A text is read exactly.** After any number of steps from its start, a cursor is on that
character of the text in which each pair of a carriage return and a newline is one newline, and
beyond its last character at its end. The line is counted by the newlines behind the cursor, the
column by the characters behind it on its line. A step at the end changes nothing. A scanner that
reads the text on demand does the same. -/
theorem text_read_exactly (text : String) (k : Nat) :
    let n := withoutReturns text.toList
    let cursor := Cursor.advanceBy k (.ofText text)
    let scanner := Scanner.next^[k] (.ofText text)
    cursor.current = n[k]? ∧
    cursor.position.line = 1 + (n.take k).count '\n' ∧
    cursor.position.column = 1 + ((n.take k).reverse.takeWhile (· ≠ '\n')).length ∧
    (n.length ≤ k → cursor.advance = cursor ∧ scanner.next = scanner) ∧
    scanner.current = some cursor.current ∧ scanner.position = cursor.position := by
  intro n cursor scanner
  have hshows : Shows scanner cursor := .iterate text k
  have hn : sourceChars text.toList = n := sourceChars_eq_withoutReturns text.toList
  have hposition : cursor.position = .behind (n.take k) := by
    rw [← hn]
    exact Cursor.position_advanceBy k text
  have hcurrent : cursor.current = n[k]? := by
    rw [Cursor.current, Cursor.rest_advanceBy, List.head?_drop, ← hn]
    rfl
  refine ⟨hcurrent, ?_, ?_, fun hend => ?_, hshows.current, hshows.position⟩
  · rw [hposition, Nat.add_comm]
    rfl
  · rw [hposition, Nat.add_comm]
    rfl
  · have hnone : cursor.current = none := hcurrent.trans (List.getElem?_eq_none hend)
    exact ⟨Cursor.advance_of_current hnone, hshows.next_at_end hnone⟩

/-- Two carriage returns before a newline, and one at the end of the text. -/
theorem text_read_exactly_returns :
    let n := withoutReturns "a\r\r\n\r".toList
    let cursor := Cursor.advanceBy 4 (.ofText "a\r\r\n\r")
    let scanner := Scanner.next^[4] (.ofText "a\r\r\n\r")
    n = ['a', '\r', '\n', '\r'] ∧ n.length ≤ 4 ∧
    cursor.current = n[4]? ∧ cursor.position.line = 2 ∧ cursor.position.column = 2 ∧
    cursor.advance = cursor ∧ scanner.next = scanner := by
  have h := text_read_exactly "a\r\r\n\r" 4
  have hend := h.2.2.2.1 (by decide)
  exact ⟨by decide, by decide, h.1, h.2.1, h.2.2.1, hend.1, hend.2⟩

end FLang
