import FLang.Artifact
import FLang.Effect
import FLang.Session

/-!
# The stages of a run

A source text is run in stages: its tokens, its tree, its value. What a stage produces is kept, and
saved as an artifact beside the source file if that is asked for. A run can stop after a stage.
Errors of the program that leave here are located in the source file.
-/

namespace FLang.Pipeline

/-- A stage of a run. -/
inductive Stage where
  | tokens
  | tree
  | value
deriving DecidableEq, Repr

/-- The stages in order. -/
def Stage.all : List Stage := [.tokens, .tree, .value]

/-- The name of a stage and of its artifact. -/
def Stage.name : Stage → String
  | .tokens => "tokens"
  | .tree => "ast"
  | .value => "run"

/-- The stage of a name. -/
def Stage.ofName? (name : String) : Option Stage :=
  Stage.all.find? fun stage => stage.name == name

/-- What is to be run, and how. -/
structure Job where
  /-- The source text. -/
  source : String
  /-- The path of its file from the root; none if it was piped in. -/
  file : Option String := none
  /-- The stages whose artifacts are saved. -/
  dump : List Stage := []
  /-- The stage after which to stop. -/
  stop : Option Stage := none
  limits : Limits := {}
  maxDepth : Nat := defaultRecursionDepth
  registry : Registry := .standard
  entry : String := "main"
  arguments : List Value := []
  /-- The bound on calls and loops. -/
  bound : Nat := Session.ample

/-- What a stage produces. -/
inductive Product where
  | tokens (list : List Token)
  | tree (program : Program)
  | value (result : Value)

/-- How far a run has come. -/
structure Progress where
  /-- What it has done. -/
  effects : List Effect := []
  /-- The stages whose products are kept. -/
  kept : List Stage := []

/-- A part of a run: how it ends, and how far it has come then. -/
abbrev Run (α : Type) := Progress → Outcome α × Progress

/-- The name of the source in error messages. -/
def Job.path (job : Job) : String :=
  job.file.getD "<stdin>"

/-- The path of a stage's artifact. -/
def Job.artifactPath (job : Job) (stage : Stage) : String :=
  let base :=
    match job.file with
    | some path => (Path.splitExtension path).1
    | none => "stdin_output"
  base ++ "." ++ stage.name ++ ".json"

/-- The JSON of what a stage produces. -/
def Product.toJson : Product → Json
  | .tokens list => .array (list.map Token.toJson)
  | .tree program => Artifact.program program
  | .value result => result.toJson

/-- Saves what a stage has produced. If it cannot be written as text, the file stays empty. -/
def save (job : Job) (stage : Stage) (product : Product) : Run Unit := fun progress =>
  let path := job.artifactPath stage
  let saving (text : String) : Progress :=
    { progress with
      effects := progress.effects ++
        [.print ("--- Saving artifact '" ++ stage.name ++ "' to " ++ path ++ " ---\n"),
         .save stage.name path text] }
  match product.toJson.pretty with
  | .ok text => (.value (), saving text)
  | .error fault => (.fault fault, saving "")

/-- Keeps what a stage has produced, and saves it if that is asked for. -/
def keep (job : Job) (stage : Stage) (product : Product) : Run Unit := fun progress =>
  let kept := { progress with kept := progress.kept ++ [stage] }
  if job.dump.contains stage then save job stage product kept else (.value (), kept)

/-- Goes on with a run that has not ended. -/
def andThen {α β : Type} (first : Run α) (next : α → Run β) : Run β := fun progress =>
  match first progress with
  | (.value a, progress') => next a progress'
  | (.fault fault, progress') => (.fault fault, progress')
  | (.exhausted, progress') => (.exhausted, progress')

/-- Runs a stage whose product is at hand, keeps the product, and stops here or goes on. -/
def finishStage (job : Job) (stage : Stage) (product : Product) (next : Run Product) :
    Run Product :=
  andThen (keep job stage product) fun _ =>
    if job.stop = some stage then fun progress => (.value product, progress) else next

/-- A stage that may fail. -/
def ofExcept {α : Type} (result : Except Fault α) : Run α := fun progress =>
  match result with
  | .ok a => (.value a, progress)
  | .error fault => (.fault fault, progress)

/-- The last stage: the value of the program. -/
def valueStage (job : Job) (program : Program) : Run Product := fun progress =>
  let (outcome, machine) :=
    program.run job.registry job.maxDepth job.entry job.arguments job.bound
  let printed :=
    if machine.output = "" then progress
    else { progress with effects := progress.effects ++ [.print machine.output] }
  match outcome with
  | .fault fault => (.fault fault, printed)
  | .exhausted => (.exhausted, printed)
  | .value result =>
    finishStage job .value (.value result) (fun progress => (.value (.value result), progress))
      printed

/-- The stages from the tree on. -/
def treeStage (job : Job) : Run Product :=
  andThen (ofExcept (parse job.limits job.source)) fun program =>
    finishStage job .tree (.tree program) (valueStage job program)

/-- All stages. The tokens are a stage of their own only if they are asked for. -/
def stages (job : Job) : Run Product :=
  if job.stop = some .tokens || job.dump.contains .tokens then
    andThen (ofExcept (tokenize job.limits job.source)) fun tokens =>
      finishStage job .tokens (.tokens tokens) (treeStage job)
  else treeStage job

/-- Runs a job: how it ends, and how far it has come then. -/
def Job.run (job : Job) : Outcome Product × Progress :=
  match stages job {} with
  | (.fault fault, progress) => (.fault (fault.inFile job.path), progress)
  | other => other

end FLang.Pipeline
