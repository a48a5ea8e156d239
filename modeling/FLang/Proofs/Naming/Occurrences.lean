import FLang.Proofs.Language
import FLang.Proofs.Lexing.LongestMatch
import FLang.Proofs.Naming.Growth

/-!
# Occurrences of names

Where a program uses variables, and what is in sight there by the block structure of its text.

* `Frame` — the names of one block that are declared before a place of it. A loop has one scope for
  all its turns, so the frame of a loop also knows what an earlier turn leaves in it;
* `Program.occurrences` — the places where a variable is read or assigned, each with the frames
  around it, the nearest first;
* `Occurrence.meaning` — the declaration that an occurrence means: the nearest one of its name
  before it. `Occurrence.Captures` are the other declarations that it can come to mean, in a later
  turn of a loop around it;
* `occurrences_nodup` — no two occurrences of a parsed program have the same position.
-/

namespace FLang

open Grammar

/-- What a block shows of itself at a place in it. -/
structure Frame where
  /-- What it declares before this place, the last one first. -/
  declared : List Scope.Entry
  /-- What its whole body declares, if it is the body of a loop. -/
  left : List Scope.Entry := []

/-- A use of a variable, with the blocks around it, the nearest first. -/
structure Occurrence where
  position : Position
  name : String
  frames : List Frame

/-- The declaration that an occurrence means in the block structure of the text. -/
def Occurrence.meaning (o : Occurrence) : Option Scope.Entry :=
  Sees.nearest (o.frames.map Frame.declared) o.name

/-- A declaration that an occurrence can mean in a later turn of a loop: it stands directly in the
body of the loop, and the occurrence is in the test, or in the body with no declaration of the body
before it. -/
def Occurrence.Captures (o : Occurrence) (position : Position) : Prop :=
  ∃ frame ∈ o.frames, frame.declared = [] ∧
    ∃ entry ∈ frame.left, entry.name = o.name ∧ entry.position = position

/-- More names in the nearest block. -/
def Frame.declareIn (more : List Scope.Entry) : List Frame → List Frame
  | [] => []
  | frame :: frames => { frame with declared := more ++ frame.declared } :: frames

mutual

/-- The occurrences in an expression. -/
def Expression.occurrences (frames : List Frame) : Expression → List Occurrence
  | .literal _ _ => []
  | .variable position name => [⟨position, name, frames⟩]
  | .negate _ operand => operand.occurrences frames
  | .cast _ operand _ => operand.occurrences frames
  | .binary _ _ left right => left.occurrences frames ++ right.occurrences frames
  | .call _ _ arguments => Expression.occurrencesAll frames arguments

/-- The occurrences in some expressions. -/
def Expression.occurrencesAll (frames : List Frame) : List Expression → List Occurrence
  | [] => []
  | first :: rest => first.occurrences frames ++ Expression.occurrencesAll frames rest

end

/-- The occurrences in some declarations, each of which is in sight of the next one. -/
def Declaration.occurrencesAll : List Frame → List Declaration → List Occurrence
  | _, [] => []
  | frames, d :: ds =>
    d.initializer.occurrences frames ++
      Declaration.occurrencesAll (Frame.declareIn [d.entry] frames) ds

mutual

/-- The occurrences in a statement. -/
def Statement.occurrences : List Frame → Statement → List Occurrence
  | frames, .declaration d => d.initializer.occurrences frames
  | frames, .assignment position name value =>
    ⟨position, name, frames⟩ :: value.occurrences frames
  | frames, .conditional _ test thenBlock none =>
    test.occurrences frames ++ thenBlock.occurrences frames
  | frames, .conditional _ test thenBlock (some elseBlock) =>
    test.occurrences frames ++ thenBlock.occurrences frames ++ elseBlock.occurrences frames
  | frames, .loop _ test (.mk _ body) =>
    -- the test stands in the scope of the body
    let inside := { declared := [], left := declaredBy body } :: frames
    test.occurrences inside ++ Statement.occurrencesAll inside body
  | frames, .choice _ guards subject arms =>
    let guarded := { declared := (guards.map Declaration.entry).reverse } :: frames
    Declaration.occurrencesAll ({ declared := [] } :: frames) guards ++
      (subject.toList.flatMap fun e => e.occurrences guarded) ++ Case.occurrencesAll guarded arms
  | _, .giveBack _ none => []
  | frames, .giveBack _ (some value) => value.occurrences frames
  | frames, .call _ _ arguments => Expression.occurrencesAll frames arguments

/-- The occurrences in a block. -/
def Block.occurrences : List Frame → Block → List Occurrence
  | frames, .mk _ statements => Statement.occurrencesAll ({ declared := [] } :: frames) statements

/-- The occurrences in the statements of a block, each of which is in sight of the next one. -/
def Statement.occurrencesAll : List Frame → List Statement → List Occurrence
  | _, [] => []
  | frames, first :: rest =>
    first.occurrences frames ++ Statement.occurrencesAll (Frame.declareIn first.entries frames) rest

/-- The occurrences in some cases. -/
def Case.occurrencesAll : List Frame → List Case → List Occurrence
  | _, [] => []
  | frames, .test _ _ value output :: rest =>
    value.occurrences frames ++ output.occurrences frames ++ Case.occurrencesAll frames rest
  | frames, .fallback _ output :: rest =>
    output.occurrences frames ++ Case.occurrencesAll frames rest

/-- The occurrences in the output of a case. -/
def CaseOutput.occurrences : List Frame → CaseOutput → List Occurrence
  | frames, .expression value => value.occurrences frames
  | frames, .block block => block.occurrences frames

end

/-- The occurrences in a function, whose body is in sight of its parameters. -/
def Function.occurrences (function : Function) : List Occurrence :=
  Statement.occurrencesAll [{ declared := (function.parameters.map Parameter.entry).reverse }]
    function.body.statements

/-- The occurrences in a program. -/
def Program.occurrences (program : Program) : List Occurrence :=
  program.functions.flatMap Function.occurrences

/-! ## Where occurrences stand -/

/-- The occurrences in a construct stand at tokens of it, in their order. -/
def Tracks {α : Type} (phrase : Phrase α) (occurrences : List Frame → α → List Occurrence) : Prop :=
  ∀ ⦃ts x⦄, phrase ts x → ∀ frames,
    ((occurrences frames x).map Occurrence.position).Sublist (ts.map Lookahead.position)

/-- So do those in the statements of a block. -/
abbrev TracksBody (block : Phrase Block) : Prop :=
  Tracks block fun frames b => Statement.occurrencesAll frames b.statements

section
variable {E : Phrase Expression} {B : Phrase Block}

/-- The occurrences in items after commas stand at tokens of the items, in their order. -/
theorem tracks_afterCommas (h : Tracks E Expression.occurrences) :
    Tracks (AfterCommas E) Expression.occurrencesAll := by
  intro ts es hes frames
  induction hes with
  | nil => exact .slnil
  | cons _ he _ ih =>
    rw [Expression.occurrencesAll, List.cons_append, List.map_cons, List.map_append,
      List.map_append]
    exact .cons _ ((h he frames).append ih)

/-- So do those in arguments in parentheses. -/
theorem tracks_arguments (h : Tracks E Expression.occurrences) :
    Tracks (CallArguments E) Expression.occurrencesAll := by
  rintro ts es ⟨_, hes, _⟩ frames
  rw [List.cons_append, List.map_cons, List.map_append]
  refine .cons _ (List.Sublist.trans ?_ (List.sublist_append_left _ _))
  cases hes with
  | none => exact .slnil
  | some he hes =>
    rw [Expression.occurrencesAll, List.map_append, List.map_append]
    exact (h he frames).append (tracks_afterCommas h hes frames)

/-- A name and the name of a call stand at their own tokens; those in the arguments come behind. -/
theorem tracks_term (h : Tracks E Expression.occurrences) :
    Tracks (Term E) Expression.occurrences := by
  intro ts e he frames
  cases he with
  | literal _ => exact List.nil_sublist _
  | reference _ => exact .refl _
  | call _ hes => exact .cons _ (tracks_arguments h hes frames)
  | parentheses _ he _ =>
    rw [List.cons_append, List.map_cons, List.map_append]
    exact .cons _ ((h he frames).trans (List.sublist_append_left _ _))

theorem tracks_unary (h : Tracks E Expression.occurrences) :
    Tracks (Unary E) Expression.occurrences := by
  intro ts e he frames
  cases he with
  | plain he => exact tracks_term h he frames
  | signed _ he =>
    rw [Expression.occurrences]
    exact .cons _ (tracks_term h he frames)

/-- The type of a cast is a word of the language and no occurrence. -/
theorem tracks_casted (h : Tracks E Expression.occurrences) :
    Tracks (Casted E) Expression.occurrences := by
  intro ts e he frames
  cases he with
  | plain he => exact tracks_unary h he frames
  | cast he _ _ =>
    rw [Expression.occurrences, List.map_append]
    exact (tracks_unary h he frames).trans (List.sublist_append_left _ _)

/-- Two operands around their operator. -/
theorem sublist_binary {l l' : List Occurrence} {t : Lookahead} {ts ts' : List Lookahead}
    (h : (l.map Occurrence.position).Sublist (ts.map Lookahead.position))
    (h' : (l'.map Occurrence.position).Sublist (ts'.map Lookahead.position)) :
    ((l ++ l').map Occurrence.position).Sublist ((ts ++ t :: ts').map Lookahead.position) := by
  rw [List.map_append, List.map_append, List.map_cons]
  exact h.append (.cons _ h')

/-- The operands of a chain are searched from the left, as they are written. -/
theorem tracks_leftAssociative {ops : List BinaryOperator} (h : Tracks E Expression.occurrences) :
    Tracks (LeftAssociative ops E) Expression.occurrences := by
  intro ts e he frames
  induction he with
  | single he => exact h he frames
  | more _ _ _ he ih =>
    rw [Expression.occurrences]
    exact sublist_binary ih (h he frames)

theorem tracks_sum (h : Tracks E Expression.occurrences) : Tracks (Sum E) Expression.occurrences :=
  tracks_leftAssociative (tracks_leftAssociative (tracks_casted h))

/-- The left side of a relation comes before the right one, in the tokens as in the tree. -/
theorem tracks_comparison (h : Tracks E Expression.occurrences) :
    Tracks (Comparison E) Expression.occurrences := by
  intro ts e he frames
  cases he with
  | plain he => exact tracks_sum h he frames
  | compare he _ he' =>
    rw [Expression.occurrences]
    exact sublist_binary (tracks_sum h he frames) (tracks_sum h he' frames)

/-- The occurrences in an expression stand at its tokens. -/
theorem tracks_expression (depth : Nat) :
    Tracks (ExpressionPhrase depth) Expression.occurrences := by
  induction depth with
  | zero => exact fun _ _ h => h.elim
  | succ depth ih =>
    exact tracks_leftAssociative (tracks_leftAssociative (tracks_comparison ih))

/-! ### Statements -/

theorem tracks_declaration (h : Tracks E Expression.occurrences) :
    Tracks (DeclarationPhrase E) fun frames d => d.initializer.occurrences frames := by
  rintro ts d ⟨_, _, _, he⟩ frames
  rw [List.map_append, List.map_cons]
  exact List.Sublist.trans (.cons _ (h he frames)) (List.sublist_append_right _ _)

/-- Guards stand in their order, whatever is in sight of each of them. -/
theorem tracks_guards (h : Tracks E Expression.occurrences) :
    Tracks (AfterCommas (DeclarationPhrase E)) Declaration.occurrencesAll := by
  intro ts ds hds
  induction hds with
  | nil => exact fun _ => List.nil_sublist _
  | cons _ hd _ ih =>
    intro frames
    rw [Declaration.occurrencesAll, List.cons_append, List.map_cons, List.map_append,
      List.map_append]
    exact .cons _ ((tracks_declaration h hd frames).append (ih _))

theorem TracksBody.tracks (hB : TracksBody B) : Tracks B Block.occurrences := by
  rintro ts ⟨position, ss⟩ hb frames
  rw [Block.occurrences]
  exact hB hb _

/-- What a case does is a block or an expression, with tokens of its own. -/
theorem tracks_output (h : Tracks E Expression.occurrences) (hB : TracksBody B) :
    Tracks (OutputPhrase E B) CaseOutput.occurrences := by
  intro ts output houtput frames
  cases houtput with
  | expression he => exact h he frames
  | block hb => exact hB.tracks hb frames

theorem tracks_case (h : Tracks E Expression.occurrences) (hB : TracksBody B) :
    Tracks (CasePhrase E B) fun frames arm => Case.occurrencesAll frames [arm] := by
  intro ts arm harm frames
  cases harm with
  | fallback _ _ houtput =>
    simp only [Case.occurrencesAll, List.append_nil]
    exact .cons _ (.cons _ (tracks_output h hB houtput frames))
  | test htest _ houtput =>
    simp only [Case.occurrencesAll, List.append_nil]
    refine sublist_binary ?_ (tracks_output h hB houtput frames)
    cases htest with
    | compared _ he => exact .cons _ (h he frames)
    | plain he => exact h he frames

theorem Case.occurrencesAll_cons (frames : List Frame) (arm : Case) (arms : List Case) :
    Case.occurrencesAll frames (arm :: arms) =
      Case.occurrencesAll frames [arm] ++ Case.occurrencesAll frames arms := by
  cases arm <;> simp [Case.occurrencesAll]

theorem tracks_cases (h : Tracks E Expression.occurrences) (hB : TracksBody B) :
    Tracks (CaseList E B) Case.occurrencesAll := by
  rintro ts arms ⟨_, hfirst, hrest, _⟩ frames
  have hmore : Tracks (AfterCommas (CasePhrase E B)) Case.occurrencesAll := by
    intro ts arms harms frames
    induction harms with
    | nil => exact List.nil_sublist _
    | cons _ harm _ ih =>
      rw [Case.occurrencesAll_cons, List.cons_append, List.map_cons, List.map_append,
        List.map_append]
      exact .cons _ ((tracks_case h hB harm frames).append ih)
  rw [Case.occurrencesAll_cons, List.cons_append, List.cons_append, List.map_cons,
    List.map_append, List.map_append, List.map_append]
  refine .cons _ (List.Sublist.trans ?_ (List.sublist_append_left _ _))
  exact (tracks_case h hB hfirst frames).append (hmore hrest frames)

/-- **The occurrences in a statement stand at tokens of it, in their order**, for every kind of
statement. -/
theorem tracks_statement (h : Tracks E Expression.occurrences) (hB : TracksBody B)
    (next : Lookahead) : Tracks (StatementPhrase E B next) Statement.occurrences := by
  intro ts s hs frames
  cases hs with
  | declaration hd =>
    rw [Statement.occurrences]
    exact tracks_declaration h hd frames
  | assignment _ _ he =>
    rw [Statement.occurrences]
    exact .cons_cons _ (.cons _ (h he frames))
  | call _ hes =>
    rw [Statement.occurrences]
    exact .cons _ (tracks_arguments h hes frames)
  | conditional _ he hb =>
    rw [Statement.occurrences, List.cons_append, List.map_cons, List.map_append, List.map_append]
    exact .cons _ ((h he frames).append (hB.tracks hb frames))
  | alternative _ he hb _ hb' =>
    rw [Statement.occurrences, List.cons_append, List.cons_append, List.map_cons]
    refine .cons _ (sublist_binary ?_ (hB.tracks hb' frames))
    rw [List.map_append, List.map_append]
    exact (h he frames).append (hB.tracks hb frames)
  | @loop _ _ _ _ b _ he hb =>
    obtain ⟨position, body⟩ := b
    rw [Statement.occurrences, List.cons_append, List.map_cons, List.map_append, List.map_append]
    exact .cons _ ((h he _).append (hB hb _))
  | choice _ hhead harms =>
    rw [Statement.occurrences, List.cons_append, List.map_cons]
    simp only [List.map_append]
    refine .cons _ (List.Sublist.append ?_ (tracks_cases h hB harms _))
    cases hhead with
    | guards hd hds =>
      rw [Declaration.occurrencesAll]
      simp only [Option.toList_none, List.flatMap_nil, List.map_nil, List.append_nil,
        List.map_append]
      exact (tracks_declaration h hd _).append (tracks_guards h hds _)
    | subject he =>
      rw [Declaration.occurrencesAll]
      simp only [Option.toList_some, List.flatMap_cons, List.flatMap_nil, List.map_nil,
        List.append_nil, List.nil_append]
      exact h he _
    | bare => exact .slnil
  | value _ _ he =>
    rw [Statement.occurrences]
    exact .cons _ (h he frames)
  | noValue _ _ =>
    rw [Statement.occurrences]
    exact List.nil_sublist _

/-- Those of statements follow each other as the statements do. -/
theorem tracks_statements (h : Tracks E Expression.occurrences) (hB : TracksBody B)
    (last : Lookahead) : Tracks (StatementList E B last) Statement.occurrencesAll := by
  intro ts ss hss
  induction hss with
  | nil => exact fun _ => List.nil_sublist _
  | cons hs _ ih =>
    intro frames
    rw [Statement.occurrencesAll, List.map_append, List.map_append]
    exact (tracks_statement h hB _ hs frames).append (ih _)

/-- The occurrences in a block stand at its tokens. -/
theorem tracks_block (depth : Nat) : TracksBody (BlockPhrase depth) := by
  induction depth with
  | zero => exact fun _ _ h => h.elim
  | succ depth ih =>
    rintro ts b ⟨_, hss, _⟩ frames
    rw [List.cons_append, List.map_cons, List.map_append]
    refine .cons _ (List.Sublist.trans ?_ (List.sublist_append_left _ _))
    exact tracks_statements (tracks_expression depth) ih _ hss frames

/-- The occurrences in a program stand at its tokens. -/
theorem tracks_program {depth : Nat} {ts : List Lookahead} {program : Program}
    (h : ProgramPhrase depth ts program) :
    (program.occurrences.map Occurrence.position).Sublist (ts.map Lookahead.position) := by
  obtain ⟨functions⟩ := program
  change FunctionList (BlockPhrase depth) ts functions at h
  induction h with
  | nil => exact .slnil
  | cons hf _ ih =>
    obtain ⟨_, _, _, _, _, hbody⟩ := hf
    rw [Program.occurrences, List.flatMap_cons, List.map_append, List.map_append]
    refine List.Sublist.append ?_ ih
    rw [List.map_append]
    exact (tracks_block depth hbody _).trans (List.sublist_append_right _ _)

end

/-! ## Parsed programs -/

/-- Tokens that count are tokens of the source, in the same order. -/
theorem significant_sublist (newline : Bool) (tokens : List Token) :
    ((significant newline tokens).map Lookahead.token).Sublist tokens := by
  fun_induction significant newline tokens with
  | case1 => exact .slnil
  | case2 _ _ _ _ ih => exact .cons _ ih
  | case3 _ _ _ _ _ ih => exact .cons _ ih
  | case4 _ _ _ _ _ ih => exact .cons_cons _ ih

/-- **No two occurrences of a parsed program have the same position.** -/
theorem occurrences_nodup {limits : Limits} {source : String} {program : Program}
    (h : parse limits source = .ok program) :
    (program.occurrences.map Occurrence.position).Nodup := by
  obtain ⟨tokens, hstream⟩ := tokenize_of_parse h
  unfold parse at h
  rw [hstream] at h
  have hsplits : Splits limits [] (sourceChars source.toList) tokens :=
    splits_of_tokenStreamFrom (c := .ofText source) (Nat.lt_succ_self _) rfl hstream
  have hincreasing := hsplits.positions.1
  have htokens : (tokens.map Token.position).Nodup :=
    hincreasing.imp fun hbefore heq => by
      rw [heq] at hbefore
      unfold Position.Before at hbefore
      omega
  have hsentence : ((sentence tokens).map Lookahead.position).Sublist
      (tokens.map Token.position) := by
    have hfirst : (sentence tokens).Sublist (significant false tokens) :=
      List.takeWhile_sublist _
    have hpositions := (hfirst.map Lookahead.token).trans (significant_sublist false tokens)
    simpa [Function.comp_def] using hpositions.map Token.position
  exact htokens.sublist ((tracks_program (phrase_of_parseTokens h).1).trans hsentence)

end FLang
