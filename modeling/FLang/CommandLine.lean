import FLang.Arguments
import FLang.Text.Lines
import FLang.Text.Utf8
import FLang.Tree.Printer
import FLang.Value.Argument

/-!
# The command line

The command that runs or prints a program. `report` computes everything that the command does from
its arguments and the content of its input, as effects and an exit status; whoever performs the
effects decides where they go.
-/

namespace FLang.CommandLine

open Arguments

/-- What a command does. -/
structure Report where
  effects : List Effect
  /-- The exit status. -/
  status : Nat
deriving DecidableEq, Repr

/-- A text in red. -/
def red (text : String) : String :=
  "\x1b[91m" ++ text ++ "\x1b[0m"

/-- A text in green. -/
def green (text : String) : String :=
  "\x1b[92m" ++ text ++ "\x1b[0m"

/-- The extension of source files. -/
def sourceExtension : String := ".fl"

/-- Why a command ends early. -/
inductive Failure where
  /-- Limits that are not positive. -/
  | invalidLimits (names : List String)
  /-- The source file does not exist. -/
  | notFound
  /-- The source file cannot be read. -/
  | unreadable (error : FileError)
  /-- The source file is not text. -/
  | malformed (error : Utf8.Malformed)
  /-- A fault of the program or of its run. -/
  | fault (f : Fault)
  /-- The bound on loops and calls was reached. -/
  | exhausted

/-- The report of a failure that is not the user's. -/
def unexpected (title message : String) : String :=
  red "--- UNEXPECTED INTERPRETER ERROR ---" ++
    "\nThis may be a bug in the interpreter. Please report it.\n" ++ title ++ ": " ++ message ++
    "\n"

/-- The wording of a failure. -/
def Failure.message (current : String) (invocation : Invocation) : Failure → String
  | .invalidLimits names =>
    red ("ERROR: Invalid limits.\n" ++ String.intercalate "\n" names) ++ "\n"
  | .notFound =>
    red ("ERROR: Script file '" ++ invocation.inputFile ++ "' not found.") ++ "\n"
  | .unreadable error =>
    unexpected error.title (error.message (Path.absolute current invocation.inputFile))
  | .malformed error => unexpected "UnicodeDecodeError" error.message
  | .fault (.diagnostic d) => red ("--- ERROR ---\n" ++ d.message) ++ "\n"
  | .fault f => unexpected f.title f.message
  | .exhausted => unexpected "RuntimeError" "bound exhausted"

/-- What is to be done with a source text. -/
structure Task where
  source : String
  limits : Limits
  maxDepth : Nat

/-- Whether the input is the standard input. -/
def isPiped (invocation : Invocation) : Bool :=
  invocation.inputFile = "-"

/-- The text of an input. -/
def sourceText (invocation : Invocation) (content : Except FileError (List UInt8)) :
    Except Failure String := do
  if !isPiped invocation &&
      (Path.splitExtension invocation.inputFile).2 ≠ sourceExtension then
    .error (.fault (.diagnostic {
      stage := .general
      cause := .invalidFileExtension invocation.inputFile sourceExtension }))
  match content with
  | .error .missing => .error .notFound
  | .error error => .error (.unreadable error)
  | .ok bytes =>
    match Utf8.decode bytes with
    | .error error => .error (.malformed error)
    | .ok text => .ok (String.ofList (Text.unifyBreaks text.toList))

/-- Checks the limits, and then reads the input. -/
def task (invocation : Invocation) (content : Except FileError (List UInt8)) :
    Except Failure Task := do
  let limits ←
    (Limits.ofInts invocation.identifierLimit invocation.stringLimit
      invocation.intLimit).mapError .invalidLimits
  let maxDepth ← (recursionDepthOfInt invocation.maxRecursionDepth).mapError .invalidLimits
  let source ← sourceText invocation content
  return { source, limits, maxDepth }

/-- Prints the program in its canonical form. -/
def formatProgram (task : Task) : Except Failure (List Effect) :=
  match parse task.limits task.source >>= Printer.program with
  | .ok text => .ok [.print text]
  | .error fault => .error (.fault fault)

/-- The title of a stage that can be chosen. -/
def stageTitle : Pipeline.Stage → String
  | .tokens => "Token Stream"
  | .tree => "Abstract Syntax Tree"
  | .value => "Result"

/-- The report that a stage has succeeded. -/
def stageSuccess (number : String) (stage : Pipeline.Stage) : Effect :=
  .print (green ("--- Stage '" ++ number ++ " (" ++ stageTitle stage ++ ")' successful ---") ++
    "\n")

/-- Runs the program, or the chosen stages of it: what that does, and how it fails if it does. -/
def runProgram (current : String) (invocation : Invocation) (task : Task) :
    List Effect × Option Failure :=
  match invocation.arguments.mapM Value.ofArgument with
  | .error fault => ([], some (.fault fault))
  | .ok arguments =>
    let stop := invocation.stage.map Prod.snd
    let job : Pipeline.Job :=
      { source := task.source
        file := if isPiped invocation then none
          else some (Path.absolute current invocation.inputFile)
        dump := stop.toList
        stop
        limits := task.limits
        maxDepth := task.maxDepth
        entry := invocation.entry
        arguments }
    match job.run with
    | (.fault fault, progress) => (progress.effects, some (.fault fault))
    | (.exhausted, progress) => (progress.effects, some .exhausted)
    | (.value _, progress) =>
      match invocation.stage with
      | none => (progress.effects, none)
      | some (number, stage) => (progress.effects ++ [stageSuccess number stage], none)

/-- Everything an invocation does, reports on its failure and its time apart. -/
def perform (current : String) (invocation : Invocation)
    (content : Except FileError (List UInt8)) : List Effect × Option Failure :=
  match task invocation content with
  | .error failure => ([], some failure)
  | .ok task =>
    if invocation.format then
      match formatProgram task with
      | .ok effects => (effects, none)
      | .error failure => ([], some failure)
    else runProgram current invocation task

/-- The start of a message about a wrong command line. -/
def programName : String := "fli"

/-- What is told to a user who asks for help. -/
def helpText : String :=
  "usage: " ++ programName ++ " [flags] input_file [arguments ...]\n"

/-- What a wrong command line leads to. -/
def refuse : Refusal → Report
  | .usage message => ⟨[.complain (programName ++ ": error: " ++ message ++ "\n")], 2⟩
  | .help => ⟨[.print helpText], 0⟩

/-- What an invocation does in a current directory, given the content of its input. -/
def report (current : String) (invocation : Invocation)
    (content : Except FileError (List UInt8)) : Report :=
  let (effects, failure) := perform current invocation content
  let complaints := failure.toList.map fun f => Effect.complain (f.message current invocation)
  let time := if invocation.time then [Effect.reportTime] else []
  ⟨effects ++ complaints ++ time, if failure.isSome then 1 else 0⟩

end FLang.CommandLine
