import FLang.Diagnostic.Cause

/-!
# Diagnostics

A diagnostic is a cause, the stage that found it, and where: a position in the source, a source
file, both or neither. Its message names the place before it gives the wording of the cause.
-/

namespace FLang

/-- The stage that reports an error. -/
inductive Diagnostic.Stage where
  /-- Splitting the source into tokens. -/
  | lexical
  /-- Matching the tokens with the grammar. -/
  | grammatical
  /-- Running the program. -/
  | semantic
  /-- Handling files. -/
  | general
deriving DecidableEq, Repr

/-- An error that a user of the language meets. -/
structure Diagnostic where
  /-- The stage that found it. -/
  stage : Diagnostic.Stage
  /-- What went wrong. -/
  cause : Diagnostic.Cause
  /-- Where in the source. -/
  position : Option Position := none
  /-- In which file. -/
  file : Option String := none
deriving DecidableEq, Repr

namespace Diagnostic

/-- The words that locate an error. An empty file name is no file. -/
def location (position : Option Position) (file : Option String) : String :=
  let spot (p : Position) :=
    "(Line: " ++ p.line.repr ++ ", Column: " ++ p.column.repr ++ "): "
  match position, file.filter (· ≠ "") with
  | some p, some f => "Error in '" ++ f ++ "' " ++ spot p
  | some p, none => "Error " ++ spot p
  | none, some f => "Error in '" ++ f ++ "': "
  | none, none => ""

/-- The full message of an error given by its code and details, or the name of a missing detail. -/
def describe (code : Code) (details : Details) (position : Option Position)
    (file : Option String) : Except String String :=
  (code.fill details).map (location position file ++ ·)

/-- The full message of a diagnostic. -/
def message (d : Diagnostic) : String :=
  location d.position d.file ++ d.cause.message

/-- The same error, located in a file. -/
def inFile (d : Diagnostic) (file : String) : Diagnostic :=
  { d with file := some file }

/-- The line of a diagnostic; zero if it has no position. -/
def line (d : Diagnostic) : Nat :=
  (d.position.map Position.line).getD 0

/-- The column of a diagnostic; zero if it has no position. -/
def column (d : Diagnostic) : Nat :=
  (d.position.map Position.column).getD 0

end Diagnostic

end FLang
