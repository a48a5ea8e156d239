import FLang.Embedded.Standard
import FLang.Text.Lines
import FLang.Tree.Parser
import FLang.Tree.Printer
import FLang.Uri

/-!
# Editor services

What an editor asks about a document: its errors, the word under the cursor, what is known about a
function, where it is defined, and what can be written. Lines and characters count from zero.

The word under the cursor is the longest run of word characters around it. A name of the language is
made of word characters only, so it is never cut.
-/

namespace FLang.Editor

/-- A place in a document. -/
structure Place where
  line : Nat
  character : Nat
deriving DecidableEq, Repr

/-- A range in a document; the end is not in it. -/
structure Range where
  first : Place
  last : Place
deriving DecidableEq, Repr

/-- An error shown in a document. -/
structure Notice where
  range : Range
  message : String
deriving DecidableEq, Repr

/-- A range in a document that may be another one. -/
structure Location where
  uri : String
  range : Range
deriving DecidableEq, Repr

/-- What a suggestion is. -/
inductive Kind where
  | function
  | keyword
  | constant
deriving DecidableEq, Repr

/-- Something that can be written. -/
structure Suggestion where
  label : String
  kind : Kind
  detail : Option String := none
  documentation : Option String := none
  /-- The text to insert, with numbered places to fill in. -/
  insertion : Option String := none
deriving DecidableEq, Repr

/-- The number that stands for a kind of suggestion. -/
def Kind.number : Kind → Nat
  | .function => 3
  | .keyword => 14
  | .constant => 21

/-- The range of so many characters from a position on. -/
def rangeAt (line column length : Nat) : Range :=
  ⟨⟨line - 1, column - 1⟩, ⟨line - 1, column - 1 + length⟩⟩

/-- The program of a document, if it has no error. Only errors of the document are passed over. -/
def program? (source : String) : Except Fault (Option Program) :=
  match parse {} source with
  | .ok program => .ok (some program)
  | .error (.diagnostic _) => .ok none
  | .error fault => .error fault

/-! ### Errors -/

/-- The errors of a document: its first error, or the functions that have the name of an embedded
one. -/
def diagnostics (registry : Registry) (source : String) : Except Fault (List Diagnostic) :=
  match parse {} source with
  | .error (.diagnostic d) => .ok [d]
  | .error fault => .error fault
  | .ok program =>
    .ok ((program.functions.filter fun f => registry.contains f.name).map fun f =>
      { stage := .semantic, cause := .redefineEmbeddedFunction f.name, position := f.position })

/-- An error as it is shown. -/
def notice (d : Diagnostic) : Notice :=
  ⟨rangeAt d.line d.column 1, d.message⟩

/-- The errors of a document as they are shown. -/
def notices (registry : Registry) (source : String) : Except Fault (List Notice) :=
  (diagnostics registry source).map fun list => list.map notice

/-! ### The word under the cursor -/

/-- The word around a place between two characters of a line. -/
def wordIn (line : List Char) (character : Nat) : List Char :=
  ((line.take character).reverse.takeWhile Text.isWordPart).reverse ++
    (line.drop character).takeWhile Text.isWordPart

/-- The word at a place in some lines; empty if there is none. -/
def wordOn (lines : List (List Char)) (place : Place) : Except Fault String :=
  match lines[place.line]? with
  | none => .error .missingItem
  | some line =>
    if place.character ≤ line.length then .ok (String.ofList (wordIn line place.character))
    else .error .missingCharacter

/-- The word under the cursor; empty if there is none. -/
def wordAt (source : String) (place : Place) : Except Fault String :=
  wordOn (Text.lines source.toList) place

/-! ### What is known about a function -/

/-- Code as a block of markdown. -/
def codeBlock (code : String) : String :=
  "```fl\n" ++ code ++ "\n```"

/-- The lines that tell a user about an embedded function. -/
def docLines (doc : Embedded.Doc) : List String :=
  if doc.isEmpty then []
  else
    ["---", "**" ++ doc.summary.getD "" ++ "**"] ++
    ((doc.parameters.getD []).map fun (name, meaning) => "- `" ++ name ++ "`: " ++ meaning) ++
    (match doc.returns with
     | none => []
     | some "" => []
     | some text => ["\n**Returns**: " ++ text])

/-- The signature of a function that the program defines. -/
def signature (f : Function) : String :=
  f.name ++ "(" ++ Printer.commaSeparated (f.parameters.map Printer.parameter) ++ ") " ++
    f.returnType.name

/-- What is known about a word, in markdown. -/
def hoverText (registry : Registry) (program : Option Program) (word : String) : Option String :=
  match registry.find? word with
  | some function =>
    some (String.intercalate "\n"
      (codeBlock ("(embedded function) " ++ function.signature) :: docLines function.doc))
  | none =>
    (program.bind (·.find? word)).map fun f =>
      codeBlock ("(user defined function) " ++ signature f)

/-- What is known about the word under the cursor. -/
def hover (registry : Registry) (source : String) (place : Place) :
    Except Fault (Option String) := do
  let word ← wordAt source place
  if word = "" then return none
  else return hoverText registry (← program? source) word

/-- Where the function under the cursor is defined. -/
def definition (current uri source : String) (place : Place) :
    Except Fault (Option Location) := do
  let word ← wordAt source place
  let program ← program? source
  return (program.bind (·.find? word)).map fun f =>
    ⟨Uri.ofPath (Uri.toPath current uri),
      rangeAt f.position.line f.position.column word.length⟩

/-! ### What can be written -/

/-- The places to fill in for parameters, numbered from an index on. -/
def placeholders : Nat → List String → List String
  | _, [] => []
  | index, name :: rest =>
    ("$\x7b" ++ index.repr ++ ":" ++ name ++ "\x7d") :: placeholders (index + 1) rest

/-- A call with places to fill in for its arguments. -/
def callSnippet (name : String) (parameters : List String) : String :=
  name ++ "(" ++ Printer.commaSeparated (placeholders 1 parameters) ++ ")"

/-- The words of the language as suggestions. -/
def wordSuggestions : List Suggestion :=
  Lexeme.words.map fun (word, lexeme) =>
    match lexeme with
    | .constant _ => { label := word, kind := .constant }
    | _ => { label := word, kind := .keyword }

/-- A call of an embedded function as a suggestion. -/
def embeddedSuggestion (f : Embedded) : Suggestion where
  label := f.name
  kind := .function
  detail := some "Embedded Function"
  documentation := f.doc.summary
  insertion := some (callSnippet f.name
    (if f.variadic then [] else (f.doc.parameters.getD []).map Prod.fst))

/-- A call of a function that the program defines as a suggestion. -/
def functionSuggestion (f : Function) : Suggestion where
  label := f.name
  kind := .function
  detail := some "User-Defined Function"
  insertion := some (callSnippet f.name (f.parameters.map Parameter.name))

/-- What can be written in a document. -/
def suggestions (registry : Registry) (source : String) : Except Fault (List Suggestion) := do
  let program ← program? source
  return wordSuggestions ++ registry.functions.map embeddedSuggestion ++
    ((program.map Program.functions).getD []).map functionSuggestion

end FLang.Editor
