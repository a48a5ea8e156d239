import FLang.Proofs.Lexing.LongestMatch

/-!
# String literals

What the printer writes for a string is read as the string again, whatever follows; and behind a
quote the lexer reads a string exactly if there is one, and otherwise reports the first thing that
is wrong (`string_literals_decode`).

* `Quoted.stringBody_append` — characters that are in order are read one after the other, each of
  them taking a place;
* `Violation` — what comes next where something is wrong: an unknown escape sequence, a character
  too many, or the end of the input;
* `violation_of_stringBody`, `Violation.stringBody_eq` — these are the errors, each at its place.
-/

namespace FLang

open Lexer

/-! ## Characters in order -/

/-- The escape sequences: what may stand behind a backslash, and the character that it denotes. -/
def escapes : List (Char × Char) :=
  [('n', '\n'), ('t', '\t'), ('"', '"'), ('\\', '\\')]

theorem unescape?_eq_some_iff {d c : Char} : unescape? d = some c ↔ (d, c) ∈ escapes := by
  simp only [escapes, List.mem_cons, Prod.mk.injEq, List.not_mem_nil, or_false]
  fun_cases unescape? d with
  | case5 _ hline htab hquote hslash => exact iff_of_false (by simp) (by tauto)
  | _ => simp [eq_comm]

/-- What the printer writes between the quotes denotes the string. -/
theorem quoted_escape (chars : List Char) : Quoted (chars.flatMap Printer.escape) chars := by
  induction chars with
  | nil => exact .nil
  | cons c chars ih =>
    rw [List.flatMap_cons]
    rcases escape_cases c with ⟨d, hescape, -, hd⟩ | ⟨hescape, -, hquote, hslash⟩
    · rw [hescape]
      exact .escape hd ih
    · rw [hescape]
      exact .plain hquote hslash ih

namespace Quoted

variable {text chars : List Char}

theorem append {text' chars' : List Char} (h : Quoted text chars) (h' : Quoted text' chars') :
    Quoted (text ++ text') (chars ++ chars') := by
  induction h with
  | nil => exact h'
  | plain hquote hslash _ ih => exact .plain hquote hslash ih
  | escape hd _ ih => exact .escape hd ih

/-- Characters of a string are read if there is room for them, and the rest is read behind them. -/
theorem stringBody_append (h : Quoted text chars) (limit : Nat) (start : Position)
    (before rest : List Char) (room : Nat) (read : List Char) :
    stringBody limit start (text ++ rest) (.behind before) (chars.length + room) read =
      stringBody limit start rest (.behind (before ++ text)) room (chars.reverse ++ read) := by
  induction h generalizing before read with
  | nil => simp
  | @plain c text chars hquote hslash _ ih =>
    have hstep := ih (before ++ [c]) (c :: read)
    rw [Position.behind_concat] at hstep
    rw [List.length_cons, Nat.add_right_comm, List.cons_append]
    simpa [stringBody, hquote, hslash] using hstep
  | @escape c d text chars hd _ ih =>
    have hstep := ih (before ++ ['\\'] ++ [d]) (c :: read)
    rw [Position.behind_concat, Position.behind_concat] at hstep
    rw [List.length_cons, Nat.add_right_comm, List.cons_append, List.cons_append]
    simpa [stringBody, hd] using hstep

/-- A single character of a string finds no room when the string is full. -/
theorem stringBody_full {c : Char} (h : Quoted text [c]) (limit : Nat) (start position : Position)
    (rest read : List Char) :
    (stringBody limit start (text ++ rest) position 0 read).1 =
      .error (.lexical start (.stringCapacityExceeded limit)) := by
  cases h with
  | plain _ hslash hrest =>
    cases hrest
    simp [stringBody, hslash]
  | escape hd hrest =>
    cases hrest
    simp [stringBody, hd]

end Quoted

/-! ## The first violation -/

/-- The characters `rest` behind an opening quote, which stands behind `before`, are not a string
within the limit, and `fault` says why. Everything up to there, the characters `body`, is in
order. -/
inductive Violation (limit : Nat) (before : List Char) : (rest : List Char) → Fault → Prop where
  | escape {body chars rest : List Char} {c : Char} :
      Quoted body chars → chars.length ≤ limit → unescape? c = none →
      Violation limit before (body ++ '\\' :: c :: rest)
        (.lexical (.behind (before ++ '"' :: body)) (.invalidEscaping c))
  | capacity {body chars next rest : List Char} {c : Char} :
      Quoted body chars → chars.length = limit → Quoted next [c] →
      Violation limit before (body ++ (next ++ rest))
        (.lexical (.behind before) (.stringCapacityExceeded limit))
  | unclosed {body chars : List Char} :
      Quoted body chars → chars.length ≤ limit →
      Violation limit before body
        (.lexical (.behind (before ++ '"' :: body)) .stringNotClosed)
  | unfinished {body chars : List Char} :
      Quoted body chars → chars.length ≤ limit →
      Violation limit before (body ++ ['\\'])
        (.lexical (.behind (before ++ '"' :: (body ++ ['\\']))) .stringNotClosed)

section

variable {limit : Nat} {before rest : List Char} {fault : Fault}

/-- Characters in order are read from the opening quote on. -/
theorem Quoted.stringBody_eq_of_le {body chars : List Char} (h : Quoted body chars)
    (hlength : chars.length ≤ limit) (before rest : List Char) :
    stringBody limit (.behind before) (body ++ rest) (.behind (before ++ ['"'])) limit [] =
      stringBody limit (.behind before) rest (.behind (before ++ '"' :: body))
        (limit - chars.length) chars.reverse := by
  have hrun := h.stringBody_append limit (.behind before) (before ++ ['"']) rest
    (limit - chars.length) []
  rwa [Nat.add_sub_cancel' hlength, List.append_assoc, List.singleton_append,
    List.append_nil] at hrun

theorem Violation.stringBody_eq (h : Violation limit before rest fault) :
    (stringBody limit (.behind before) rest (.behind (before ++ ['"'])) limit []).1 =
      .error fault := by
  cases h with
  | escape hbody hlength hc =>
    rw [hbody.stringBody_eq_of_le hlength]
    simp [stringBody, hc]
  | capacity hbody hlength hnext =>
    rw [hbody.stringBody_eq_of_le hlength.le, hlength, Nat.sub_self]
    exact hnext.stringBody_full ..
  | unclosed hbody hlength =>
    have hrun := hbody.stringBody_eq_of_le hlength before []
    rw [List.append_nil] at hrun
    rw [hrun]
    rfl
  | unfinished hbody hlength =>
    rw [hbody.stringBody_eq_of_le hlength, ← List.cons_append, ← List.append_assoc,
      Position.behind_concat]
    rfl

/-- An error behind characters that are in order is the first violation. -/
theorem violation_of_stringBody {read : List Char} {room : Nat} {position : Position}
    (h : (stringBody limit (.behind before) rest position room read).1 = .error fault) :
    ∀ {body chars : List Char}, Quoted body chars → chars.length + room = limit →
      position = .behind (before ++ '"' :: body) → Violation limit before (body ++ rest) fault := by
  -- the characters read so far become part of `body`, and each of them takes a place of the room
  fun_induction stringBody limit (.behind before) rest position room read with
  | case1 =>
    obtain rfl := Except.error.inj h
    rintro body chars hbody hroom rfl
    rw [List.append_nil]
    exact .unclosed hbody (by omega)
  | case2 => cases h
  | case3 =>
    obtain rfl := Except.error.inj h
    rintro body chars hbody hroom rfl
    have hviolation : Violation limit before (body ++ ['\\']) _ := .unfinished hbody (by omega)
    rwa [← List.cons_append, ← List.append_assoc, Position.behind_concat] at hviolation
  | case4 escape rest position room read _ hescape =>
    obtain rfl := Except.error.inj h
    rintro body chars hbody hroom rfl
    exact .escape hbody (by omega) hescape
  | case5 escape rest position read _ char hescape =>
    obtain rfl := Except.error.inj h
    rintro body chars hbody hroom -
    exact .capacity hbody hroom (.escape hescape .nil)
  | case6 escape rest position read _ char room hescape ih =>
    rintro body chars hbody hroom rfl
    have hlonger : Quoted (body ++ ['\\', escape]) (chars ++ [char]) :=
      hbody.append (.escape hescape .nil)
    have hposition : ((Position.behind (before ++ '"' :: body)).after '\\').after escape =
        .behind (before ++ '"' :: (body ++ ['\\', escape])) := by
      rw [← Position.behind_concat, ← Position.behind_concat]
      simp
    have hviolation := ih h hlonger (by simp; omega) hposition
    rwa [List.append_assoc] at hviolation
  | case7 char rest position read hquote hend hslash =>
    obtain rfl := Except.error.inj h
    rintro body chars hbody hroom -
    exact .capacity hbody hroom (.plain hquote (ne_backslash hend hslash) .nil)
  | case8 char rest position room read hquote hend hslash ih =>
    rintro body chars hbody hroom rfl
    have hlonger : Quoted (body ++ [char]) (chars ++ [char]) :=
      hbody.append (.plain hquote (ne_backslash hend hslash) .nil)
    have hposition : (Position.behind (before ++ '"' :: body)).after char =
        .behind (before ++ '"' :: (body ++ [char])) := by
      rw [← Position.behind_concat]
      simp
    have hviolation := ih h hlonger (by simp; omega) hposition
    rwa [List.append_assoc] at hviolation

end

/-! ## String literals -/

variable {limits : Limits} {before rest : List Char}

/-- Behind an opening quote a string is read. -/
theorem next_quote (limits : Limits) (before rest : List Char) :
    Lexer.next limits ⟨'"' :: rest, .behind before⟩ =
      let result := stringBody limits.stringLimit (.behind before) rest
        (.behind (before ++ ['"'])) limits.stringLimit []
      (result.1.map fun l => ⟨l, .behind before⟩, result.2) := by
  rw [next_of_not_blank (by decide), Position.behind_concat]
  rfl

/-- A string within the limit is read up to its closing quote. -/
theorem Quoted.next_eq {body chars : List Char} (h : Quoted body chars)
    (hlength : chars.length ≤ limits.stringLimit) (before following : List Char) :
    Lexer.next limits ⟨'"' :: (body ++ '"' :: following), .behind before⟩ =
      (.ok ⟨.constant (.string (String.ofList chars)), .behind before⟩,
        ⟨following, .behind (before ++ '"' :: (body ++ ['"']))⟩) := by
  rw [next_quote, h.stringBody_eq_of_le hlength, ← List.cons_append, ← List.append_assoc,
    Position.behind_concat]
  simp [stringBody, Except.map]

theorem next_quote_ok_inv {token : Token} {after : Cursor}
    (h : Lexer.next limits ⟨'"' :: rest, .behind before⟩ = (.ok token, after)) :
    ∃ body chars following, rest = body ++ '"' :: following ∧ Quoted body chars ∧
      chars.length ≤ limits.stringLimit := by
  rw [next_quote] at h
  generalize hread : stringBody _ _ _ _ _ _ = result at h
  obtain ⟨found, after'⟩ := result
  cases found with
  | error fault => cases (Prod.mk.inj h).1
  | ok l =>
    obtain ⟨body, chars, hrest, hquoted, hlength, -⟩ := quoted_of_stringBody hread
    exact ⟨body, chars, after'.rest, hrest, hquoted, hlength⟩

theorem next_quote_error_iff {fault : Fault} :
    (Lexer.next limits ⟨'"' :: rest, .behind before⟩).1 = .error fault ↔
      Violation limits.stringLimit before rest fault := by
  have hresult : (Lexer.next limits ⟨'"' :: rest, .behind before⟩).1 = .error fault ↔
      (stringBody limits.stringLimit (.behind before) rest (.behind (before ++ ['"']))
        limits.stringLimit []).1 = .error fault := by
    rw [next_quote]
    generalize stringBody _ _ _ _ _ _ = result
    obtain ⟨found, after⟩ := result
    cases found <;> simp [Except.map]
  rw [hresult]
  exact ⟨fun h => violation_of_stringBody h .nil (Nat.zero_add _) rfl, Violation.stringBody_eq⟩

/-- **String literals are decoded.** There are four escape sequences. What the printer writes for a
string within the limit is read as the string, and reading stops in front of what follows. Behind
any opening quote a string is read exactly if the text begins with characters in order and a closing
quote, and otherwise the error is the first violation. -/
theorem string_literals_decode (limits : Limits) (before : List Char) :
    (∀ d c, unescape? d = some c ↔ (d, c) ∈ escapes) ∧
    (∀ (s : String) (following : List Char), s.length ≤ limits.stringLimit →
      Lexer.next limits
          ⟨sourceChars ((Printer.stringLiteral s).toList ++ following), .behind before⟩ =
        (.ok ⟨.constant (.string s), .behind before⟩,
          ⟨sourceChars following, .behind (before ++ (Printer.stringLiteral s).toList)⟩)) ∧
    ∀ rest : List Char,
      (∀ token after,
        Lexer.next limits ⟨'"' :: rest, .behind before⟩ = (.ok token, after) ↔
          ∃ body chars following, rest = body ++ '"' :: following ∧ Quoted body chars ∧
            chars.length ≤ limits.stringLimit ∧
            token = ⟨.constant (.string (String.ofList chars)), .behind before⟩ ∧
            after = ⟨following, .behind (before ++ '"' :: (body ++ ['"']))⟩) ∧
      ∀ fault,
        (Lexer.next limits ⟨'"' :: rest, .behind before⟩).1 = .error fault ↔
          Violation limits.stringLimit before rest fault := by
  refine ⟨fun _ _ => unescape?_eq_some_iff, fun s following hlength => ?_,
    fun rest => ⟨fun token after => ⟨fun h => ?_, ?_⟩, fun fault => next_quote_error_iff⟩⟩
  · have hspells : Spells limits _ _ following := Lexeme.spells_string hlength
    -- the literal has no line ends of its own, so unifying them changes only what follows
    have hkept := hspells.kept following
    have hread := (quoted_escape s.toList).next_eq (by rwa [String.length_toList]) before
      (sourceChars following)
    rw [Lexeme.spelling] at hkept
    rw [hkept]
    simpa [Printer.stringLiteral] using hread
  · obtain ⟨body, chars, following, rfl, hquoted, hlength⟩ := next_quote_ok_inv h
    rw [hquoted.next_eq hlength] at h
    obtain ⟨htoken, hafter⟩ := Prod.mk.inj h
    exact ⟨body, chars, following, rfl, hquoted, hlength, (Except.ok.inj htoken).symm, hafter.symm⟩
  · rintro ⟨body, chars, following, rfl, hquoted, hlength, rfl, rfl⟩
    exact hquoted.next_eq hlength before following

/-- A carriage return in front of an escaped newline is no line end. -/
theorem string_literals_decode_line_end :
    Printer.stringLiteral "\r\n" = "\"\r\\n\"" ∧
      Lexer.next {}
          ⟨sourceChars ((Printer.stringLiteral "\r\n").toList ++ ['\r', '\n']), .behind []⟩ =
        (.ok ⟨.constant (.string "\r\n"), .behind []⟩,
          ⟨['\n'], .behind ['"', '\r', '\\', 'n', '"']⟩) := by
  have hread := (string_literals_decode {} []).2.1 "\r\n" ['\r', '\n'] (by decide)
  exact ⟨by decide, hread⟩

end FLang
