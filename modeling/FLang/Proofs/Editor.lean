import FLang.Editor
import FLang.Proofs.Language
import FLang.Proofs.Lexing.Characters
import FLang.Proofs.Lexing.Neighbours

/-!
# The word under the cursor

Around every place in a name of a parsed program an editor finds the name, with the digits directly
before it (`word_at_name`). Only a number that touches the name leaves such digits, and then the
word is not the name (`word_at_touched_name`).

Positions count the lines and columns of the text with unified line ends; an editor has the lines of
the text as it is. Both agree up to the line end (`newlineLines_getElem?`,
`rtakeWhile_sourceChars`).
-/

namespace FLang

open Editor
open Text (isWordPart isNamePart)

/-! ## Lines -/

/-- The lines of a text, split after each newline. -/
def newlineLines : List Char → List (List Char)
  | [] => []
  | c :: rest =>
    if c = '\n' then [c] :: newlineLines rest
    else (c :: (newlineLines rest).headD []) :: (newlineLines rest).tail

/-- A text up to its first newline, with the newline. -/
def firstLine : List Char → List Char
  | [] => []
  | c :: rest => if c = '\n' then [c] else c :: firstLine rest

theorem newlineLines_cons {c : Char} {rest : List Char} (hc : c ≠ '\n') (hrest : rest ≠ []) :
    ∃ first more, newlineLines rest = first :: more ∧
      newlineLines (c :: rest) = (c :: first) :: more := by
  cases hlines : newlineLines rest with
  | nil =>
    obtain ⟨d, rest, rfl⟩ := List.exists_cons_of_ne_nil hrest
    rw [newlineLines] at hlines
    split at hlines <;> cases hlines
  | cons first more =>
    refine ⟨first, more, rfl, ?_⟩
    rw [newlineLines, if_neg hc, hlines]
    rfl

theorem newlineLines_head? {rest : List Char} (h : rest ≠ []) :
    (newlineLines rest)[0]? = some (firstLine rest) := by
  induction rest with
  | nil => exact absurd rfl h
  | cons c rest ih =>
    by_cases hc : c = '\n'
    · rw [newlineLines, if_pos hc, firstLine, if_pos hc]
      rfl
    · by_cases hrest : rest = []
      · subst hrest
        rw [newlineLines, if_neg hc, firstLine, if_neg hc]
        rfl
      · obtain ⟨first, more, hlines, hcons⟩ := newlineLines_cons hc hrest
        have hfirst := ih hrest
        rw [hlines] at hfirst
        obtain rfl := Option.some.inj hfirst
        rw [hcons, firstLine, if_neg hc]
        rfl

/-- The first character of a text matters for a run at its end only if the run is the text. -/
theorem rtakeWhile_cons {p : Char → Bool} {c : Char} {rest : List Char}
    (h : ∃ d ∈ c :: rest, p d = false) : (c :: rest).rtakeWhile p = rest.rtakeWhile p := by
  induction rest using List.reverseRecOn with
  | nil =>
    have hc : p c = false := by simpa using h
    simp [List.rtakeWhile, hc]
  | append_singleton rest d ih =>
    rw [← List.cons_append, List.rtakeWhile_concat, List.rtakeWhile_concat]
    split
    · next hd =>
      obtain ⟨e, he, hpe⟩ := h
      rw [← List.cons_append, List.mem_append, List.mem_singleton] at he
      rcases he with he | rfl
      · rw [ih ⟨e, he, hpe⟩]
      · rw [hpe] at hd
        cases hd
    · rfl

/-- **A line of a text** is what stands in front of a place, behind the last newline there, and what
stands behind it up to the next newline. -/
theorem newlineLines_getElem? (before : List Char) {rest : List Char} (h : rest ≠ []) :
    (newlineLines (before ++ rest))[before.count '\n']? =
      some (before.rtakeWhile (· ≠ '\n') ++ firstLine rest) := by
  induction before with
  | nil => exact newlineLines_head? h
  | cons c before ih =>
    by_cases hc : c = '\n'
    · subst hc
      rw [List.count_cons_self, rtakeWhile_cons ⟨'\n', by simp⟩, List.cons_append, newlineLines,
        if_pos rfl, List.getElem?_cons_succ, ih]
    · obtain ⟨first, more, hlines, hcons⟩ :=
        newlineLines_cons hc (List.append_ne_nil_of_right_ne_nil before h)
      rw [List.count_cons_of_ne hc, List.cons_append, hcons]
      rw [hlines] at ih
      -- the character is added to the first line, which is the line in question if no newline is in
      -- between
      by_cases hline : '\n' ∈ before
      · obtain ⟨n, hn⟩ := Nat.exists_eq_succ_of_ne_zero (List.count_pos_iff.2 hline).ne'
        rw [hn, List.getElem?_cons_succ] at ih ⊢
        rw [rtakeWhile_cons ⟨'\n', List.mem_cons_of_mem c hline, by simp⟩, ih]
      · rw [List.count_eq_zero.2 hline] at ih ⊢
        have hall : ∀ d ∈ c :: before, (decide (d ≠ '\n')) = true := by
          intro d hd
          rw [decide_eq_true_eq]
          rintro rfl
          exact (List.mem_cons.1 hd).elim (fun hd => hc hd.symm) hline
        rw [List.rtakeWhile_eq_self_iff.2 fun d hd => hall d (List.mem_cons_of_mem c hd)] at ih
        obtain rfl := Option.some.inj ih
        rw [List.rtakeWhile_eq_self_iff.2 hall]
        rfl

/-- Up to its first newline a text is on its first line. -/
theorem firstLine_append {text : List Char} (h : '\n' ∉ text) (rest : List Char) :
    firstLine (text ++ rest) = text ++ firstLine rest := by
  induction text with
  | nil => rfl
  | cons c text ih =>
    have hc : c ≠ '\n' := fun hc => h (hc ▸ List.mem_cons_self ..)
    rw [List.cons_append, firstLine, if_neg hc, ih fun hline => h (List.mem_cons_of_mem c hline)]
    rfl

@[simp] theorem head?_firstLine (chars : List Char) : (firstLine chars).head? = chars.head? := by
  cases chars with
  | nil => rfl
  | cons c chars =>
    rw [firstLine]
    split <;> rfl

/-! ## The text as it is and the text with unified line ends -/

/-- A text with unified line ends is split where the text is. -/
theorem sourceChars_eq_append {chars before rest : List Char}
    (h : sourceChars chars = before ++ rest) :
    ∃ front back, chars = front ++ back ∧ sourceChars front = before ∧ sourceChars back = rest := by
  induction chars generalizing before with
  | nil =>
    obtain ⟨rfl, rfl⟩ := List.append_eq_nil_iff.1 h.symm
    exact ⟨[], [], rfl, rfl, rfl⟩
  | cons c chars ih =>
    cases before with
    | nil => exact ⟨[], c :: chars, rfl, rfl, h⟩
    | cons b before =>
      rw [sourceChars_cons] at h
      split at h
      · next hpair =>
        -- the newline of a pair is in front of the split, and so is its carriage return
        obtain ⟨front, back, rfl, hfront, hback⟩ := ih h
        have hhead : front.head? = some '\n' := by
          cases front with
          | nil => cases hfront
          | cons d front => exact hpair.2
        exact ⟨c :: front, back, rfl, by rw [sourceChars_cons, if_pos ⟨hpair.1, hhead⟩, hfront],
          hback⟩
      · next hpair =>
        obtain ⟨rfl, htail⟩ := List.cons.inj h
        obtain ⟨front, back, rfl, rfl, hback⟩ := ih htail
        refine ⟨c :: front, back, rfl, ?_, hback⟩
        rw [sourceChars_cons, if_neg]
        rintro ⟨hreturn, hhead⟩
        exact hpair ⟨hreturn, by simp [hhead]⟩

theorem count_sourceChars (chars : List Char) :
    (sourceChars chars).count '\n' = chars.count '\n' := by
  induction chars with
  | nil => rfl
  | cons c chars ih =>
    rw [sourceChars_cons]
    split
    · next hpair => rw [ih, hpair.1, List.count_cons_of_ne (by decide)]
    · rw [List.count_cons, List.count_cons, ih]

theorem sourceChars_of_not_mem {chars : List Char} (h : '\n' ∉ chars) :
    sourceChars chars = chars := by
  induction chars with
  | nil => rfl
  | cons c chars ih =>
    have hchars : '\n' ∉ chars := fun hmem => h (List.mem_cons_of_mem c hmem)
    rw [sourceChars_cons, if_neg fun hpair => hchars (List.mem_of_mem_head? hpair.2), ih hchars]

@[simp] theorem newline_mem_sourceChars {chars : List Char} :
    '\n' ∈ sourceChars chars ↔ '\n' ∈ chars := by
  rw [← List.count_pos_iff, count_sourceChars, List.count_pos_iff]

/-- The last line of a text is the last line with unified line ends. -/
theorem rtakeWhile_sourceChars (chars : List Char) :
    (sourceChars chars).rtakeWhile (· ≠ '\n') = chars.rtakeWhile (· ≠ '\n') := by
  induction chars with
  | nil => rfl
  | cons c chars ih =>
    by_cases hline : '\n' ∈ c :: chars
    · rw [rtakeWhile_cons ⟨'\n', hline, by simp⟩, ← ih, sourceChars_cons]
      split
      · rfl
      · have hline' : '\n' ∈ c :: sourceChars chars := by
          rwa [List.mem_cons, newline_mem_sourceChars, ← List.mem_cons]
        exact rtakeWhile_cons ⟨'\n', hline', by simp⟩
    · rw [sourceChars_of_not_mem hline]

theorem stops_of_sourceChars {chars : List Char} (h : Stops isWordPart (sourceChars chars)) :
    Stops isWordPart chars := by
  intro c hc
  obtain ⟨chars, rfl⟩ := List.head?_eq_some_iff.1 hc
  rw [sourceChars_cons] at h
  split at h
  · next hpair =>
    rw [hpair.1]
    decide +kernel
  · exact h c rfl

/-- If newlines are the only line breaks, an editor splits a text after each newline. -/
theorem lines_eq_newlineLines {chars : List Char}
    (h : ∀ c ∈ sourceChars chars, Text.isLineBreak c = true → c = '\n') :
    Text.lines chars = newlineLines chars := by
  induction chars using sourceChars.induct with
  | case1 => rfl
  | case2 rest ih =>
    rw [Text.lines, ih fun c hc => h c (List.mem_cons_of_mem _ hc)]
    rfl
  | case3 c rest hpair ih =>
    rw [sourceChars.eq_3 c rest hpair] at h
    rw [Text.lines.eq_3 c rest hpair, ih fun d hd => h d (List.mem_cons_of_mem c hd), newlineLines]
    by_cases hbreak : Text.isLineBreak c = true
    · rw [if_pos hbreak, if_pos (h c (List.mem_cons_self ..) hbreak)]
    · have hc : c ≠ '\n' := by
        rintro rfl
        exact hbreak (by decide)
      rw [if_neg hbreak, if_neg hc]
      cases newlineLines rest <;> rfl

/-! ## Words -/

/-- A run inside a longer run is a run of the text. -/
theorem rtakeWhile_rtakeWhile {p q : Char → Bool} (h : ∀ c, p c = true → q c = true)
    (chars : List Char) : (chars.rtakeWhile q).rtakeWhile p = chars.rtakeWhile p := by
  have hboth : (fun c => decide (p c = true ∧ q c = true)) = p := by
    funext c
    rw [Bool.eq_iff_iff, decide_eq_true_eq]
    exact and_iff_left_of_imp (h c)
  rw [List.rtakeWhile, List.rtakeWhile, List.reverse_reverse, List.takeWhile_takeWhile, hboth]
  rfl

/-- A word at the end of a text is on its last line. -/
@[simp] theorem wordEnd_lastLine (before : List Char) :
    wordEnd (before.rtakeWhile (· ≠ '\n')) = wordEnd before := by
  refine rtakeWhile_rtakeWhile (fun c hc => decide_eq_true ?_) before
  rintro rfl
  revert hc
  decide +kernel

/-- The word around a place in or next to a name. -/
theorem wordIn_name {front name back : List Char} (hname : ∀ c ∈ name, isWordPart c = true)
    (hback : Stops isWordPart back) {k : Nat} (hk : k ≤ name.length) :
    wordIn (front ++ name ++ back) (front.length + k) = wordEnd front ++ name := by
  have htake : (front ++ name ++ back).take (front.length + k) = front ++ name.take k := by
    rw [List.append_assoc, List.take_length_add_append, List.take_append_of_le_length hk]
  have hdrop : (front ++ name ++ back).drop (front.length + k) = name.drop k ++ back := by
    rw [List.append_assoc, List.drop_length_add_append, List.drop_append_of_le_length hk]
  have hend : back.takeWhile isWordPart = [] := by
    cases back with
    | nil => rfl
    | cons c back => exact List.takeWhile_cons_of_neg (by simp [hback c rfl])
  change wordEnd (List.take _ _) ++ _ = _
  rw [htake, hdrop, wordEnd_append fun c hc => hname c (List.mem_of_mem_take hc),
    List.takeWhile_append_of_pos fun c hc => hname c (List.mem_of_mem_drop hc), hend,
    List.append_nil, List.append_assoc, List.take_append_drop]

theorem wordOn_name {lines : List (List Char)} {n k : Nat} {front name back : List Char}
    (hline : lines[n]? = some (front ++ name ++ back)) (hname : ∀ c ∈ name, isWordPart c = true)
    (hback : Stops isWordPart back) (hk : k ≤ name.length) :
    wordOn lines ⟨n, front.length + k⟩ = .ok (String.ofList (wordEnd front ++ name)) := by
  rw [wordOn, hline]
  simp only
  rw [if_pos (by simp only [List.length_append]; omega), wordIn_name hname hback hk]

/-- The digits directly before a place in a line. -/
def digitsBefore (line : List Char) (character : Nat) : List Char :=
  (line.take character).rtakeWhile Char.isDigit

/-- Where a word is made of digits in front of a place, it is the digits before the place. -/
theorem digitsBefore_eq {front : List Char} (h : ∀ c ∈ wordEnd front, c.isDigit = true)
    (back : List Char) : digitsBefore (front ++ back) front.length = wordEnd front := by
  rw [digitsBefore, List.take_left,
    ← rtakeWhile_rtakeWhile (fun _ => isWordPart_of_isDigit) front]
  exact List.rtakeWhile_eq_self_iff.2 h

/-- The line of a name in a text, where the name stands behind `before` and in front of `more` once
line ends are unified. -/
theorem line_of_name {chars before name more : List Char}
    (h : sourceChars chars = before ++ name ++ more) (hne : name ≠ [])
    (hname : ∀ c ∈ name, isWordPart c = true) (hmore : Stops isWordPart more) :
    ∃ back, (newlineLines chars)[before.count '\n']? =
      some (before.rtakeWhile (· ≠ '\n') ++ name ++ back) ∧ Stops isWordPart back := by
  obtain ⟨front, rest, rfl, hfront, hrest⟩ := sourceChars_eq_append (h.trans (List.append_assoc ..))
  obtain ⟨written, back, rfl, hwritten, hback⟩ := sourceChars_eq_append hrest
  have hline : '\n' ∉ name := fun hmem => by
    have hpart := hname _ hmem
    revert hpart
    decide +kernel
  -- a name has no newline, so it is written as it is read
  obtain rfl : written = name := by
    rwa [sourceChars_of_not_mem fun hmem => ?_] at hwritten
    rw [← newline_mem_sourceChars, hwritten] at hmem
    exact hline hmem
  refine ⟨firstLine back, ?_, fun c hc => ?_⟩
  · rw [← hfront, count_sourceChars, rtakeWhile_sourceChars,
      newlineLines_getElem? front (by simp [hne]), firstLine_append hline, List.append_assoc]
  · rw [← hback] at hmore
    rw [head?_firstLine] at hc
    exact stops_of_sourceChars hmore c hc

/-- A name in a text, which stands behind `before` and in front of `more` once line ends are
unified: its line, the digits before it there, and the words around its places. -/
theorem words_at_place {limits : Limits} {chars before more : List Char} {name : String}
    (h : sourceChars chars = before ++ name.toList ++ more) (hword : IsWord limits name.toList)
    (hmore : Stops isWordPart more) (hdigits : ∀ c ∈ wordEnd before, c.isDigit = true) :
    ∃ line, (newlineLines chars)[(Position.behind before).line - 1]? = some line ∧
      digitsBefore line ((Position.behind before).column - 1) = wordEnd before ∧
      ∀ character, (Position.behind before).column - 1 ≤ character →
        character ≤ (Position.behind before).column - 1 + name.length →
        wordOn (newlineLines chars) ⟨(Position.behind before).line - 1, character⟩ =
          .ok (String.ofList (wordEnd before) ++ name) := by
  have hparts : ∀ c ∈ name.toList, isWordPart c = true := fun c hc =>
    Text.isWordPart_of_isNamePart (hword.parts c hc)
  obtain ⟨c, text, htext, -⟩ := hword.first
  obtain ⟨back, hline, hback⟩ := line_of_name h (by simp [htext]) hparts hmore
  have hcolumn : (Position.behind before).column - 1 = (before.rtakeWhile (· ≠ '\n')).length := by
    rw [List.rtakeWhile, List.length_reverse]
    rfl
  -- the text in front of the name matters only through its last line
  rw [← wordEnd_lastLine before] at hdigits ⊢
  rw [hcolumn]
  generalize before.rtakeWhile (· ≠ '\n') = front at hline hdigits ⊢
  refine ⟨front ++ name.toList ++ back, hline, ?_, fun character hfirst hlast => ?_⟩
  · rw [List.append_assoc]
    exact digitsBefore_eq hdigits _
  · obtain ⟨k, rfl⟩ := Nat.exists_eq_add_of_le hfirst
    have hk : k ≤ name.toList.length := Nat.le_of_add_le_add_left hlast
    have hfound := wordOn_name hline hparts hback hk
    rwa [String.ofList_append, String.ofList_toList] at hfound

/-- **The word at a name is the name, with the digits directly before it.** This holds for every
parsed program, every identifier in its tokens and every place from the first character of the
identifier to behind its last one, in lines that end with newlines. There are such digits only if
the token before the identifier is a number. An editor has these lines if newlines are the only line
breaks. -/
theorem word_at_name {limits : Limits} {source : String} {program : Program}
    (h : parse limits source = .ok program) :
    ∃ tokens, tokenize limits source = .ok tokens ∧
      (∀ earlier token later name, tokens = earlier ++ token :: later →
        token.lexeme = .identifier name →
        ∃ line, (newlineLines source.toList)[token.position.line - 1]? = some line ∧
          (∀ character, token.position.column - 1 ≤ character →
            character ≤ token.position.column - 1 + name.length →
            wordOn (newlineLines source.toList) ⟨token.position.line - 1, character⟩ =
              .ok (String.ofList (digitsBefore line (token.position.column - 1)) ++ name)) ∧
          (digitsBefore line (token.position.column - 1) ≠ [] →
            ∃ number ∈ earlier.getLast?, number.lexeme.isNumber = true)) ∧
      ((∀ c ∈ sourceChars source.toList, Text.isLineBreak c = true → c = '\n') →
        ∀ place, wordAt source place = wordOn (newlineLines source.toList) place) := by
  obtain ⟨tokens, hstream⟩ := tokenize_of_parse h
  have hsplits : Splits limits [] (sourceChars source.toList) tokens :=
    splits_of_tokenStreamFrom (c := .ofText source) (Nat.lt_succ_self _) rfl hstream
  refine ⟨tokens, ?_, fun earlier token later name htokens hname => ?_, fun hbreaks place => ?_⟩
  · rw [tokenize, hstream]
  -- at the start of the text nothing is in front of the first token
  · have hstart : Meets [] none (sourceChars source.toList) := .apart rfl
    obtain ⟨before, more, hsource, hposition, hword, hmore, hdigits, hnumber⟩ :=
      hsplits.around_name hstart htokens hname
    rw [List.nil_append] at hposition hdigits hnumber
    obtain ⟨line, hline, hbefore, hwords⟩ := words_at_place hsource hword hmore hdigits
    rw [hposition, hline]
    refine ⟨line, rfl, ?_, fun hne => ?_⟩
    · rwa [hbefore]
    · rw [hbefore] at hne
      obtain ⟨l, hl, hisNumber⟩ := hnumber hne
      rw [Option.or_none] at hl
      obtain ⟨number, hlast, rfl⟩ := Option.map_eq_some_iff.1 hl
      exact ⟨number, hlast, hisNumber⟩
  · rw [wordAt, lines_eq_newlineLines hbreaks]

/-- A call behind a number that touches it. -/
def touchingSource : String :=
  "f() \x7b\x7d\nmain() \x7b\n  int y := 5f()\n\x7d\n"

theorem word_at_name_touchingSource :
    ∃ program tokens line, parse {} touchingSource = .ok program ∧
      tokenize {} touchingSource = .ok tokens ∧ ⟨.identifier "f", 3, 13⟩ ∈ tokens ∧
      (newlineLines touchingSource.toList)[2]? = some line ∧
      wordOn (newlineLines touchingSource.toList) ⟨2, 12⟩ =
        .ok (String.ofList (digitsBefore line 12) ++ "f") := by
  have htoken : ((tokenize {} touchingSource).toOption.any fun tokens =>
      decide (⟨.identifier "f", 3, 13⟩ ∈ tokens)) = true := by decide +kernel
  have hsome : (parse {} touchingSource).toOption.isSome = true := by decide +kernel
  cases hparse : parse {} touchingSource with
  | error fault =>
    rw [hparse] at hsome
    cases hsome
  | ok program =>
    obtain ⟨tokens, htokens, hwords, -⟩ := word_at_name hparse
    rw [htokens] at htoken
    have hmem := of_decide_eq_true htoken
    obtain ⟨earlier, later, hsplit⟩ := List.append_of_mem hmem
    obtain ⟨line, hline, hword, -⟩ := hwords earlier _ later "f" hsplit rfl
    exact ⟨program, tokens, line, rfl, htokens, hmem, hline, hword 12 (by decide) (by decide)⟩

/-- **The word at a name that a number touches is not the name.** The program parses and calls `f`
there, but the word under the cursor is `5f`, and no definition is found. -/
theorem word_at_touched_name :
    (parse {} touchingSource).toOption.isSome = true ∧
    ((tokenize {} touchingSource).toOption.any fun tokens =>
      decide (⟨.identifier "f", 3, 13⟩ ∈ tokens)) = true ∧
    wordOn (newlineLines touchingSource.toList) ⟨2, 12⟩ = .ok "5f" ∧
    wordAt touchingSource ⟨2, 12⟩ = .ok "5f" ∧
    ((definition "/" "file:///touching.fl" touchingSource ⟨2, 12⟩).toOption.any
      Option.isNone) = true :=
  ⟨by decide +kernel, by decide +kernel, by rfl, by rfl, by decide +kernel⟩

end FLang
