import FLang.Disk

/-!
# Effects

What a command does to the world, as data: commands compute a list of effects, and someone else
performs them. `Console.perform` performs them in memory.
-/

namespace FLang

/-- Something that a command does. -/
inductive Effect where
  /-- Writes a text to the standard output. -/
  | print (text : String)
  /-- Writes a text to the standard error output. -/
  | complain (text : String)
  /-- Writes a text to a file. A failure is reported on the standard output. -/
  | save (artifact path text : String)
  /-- Reports how long the command took. -/
  | reportTime
deriving DecidableEq, Repr

/-- The report that an artifact could not be saved. -/
def saveFailure (artifact reason : String) : String :=
  "Error: Could not save artifact '" ++ artifact ++ "': " ++ reason ++ "\n"

/-- The report of how many seconds a command took. -/
def timeReport (seconds : String) : String :=
  "\x1b[96m--- Total Execution Time: " ++ seconds ++ " seconds ---\x1b[0m\n"

/-- What a command can change. -/
structure Console where
  /-- Its files. -/
  disk : Disk
  /-- What it wrote to the standard output. -/
  output : String := ""
  /-- What it wrote to the standard error output. -/
  errors : String := ""

namespace Console

/-- Performs an effect of a command that took so many seconds. -/
def perform (seconds : String) (console : Console) : Effect → Console
  | .print text => { console with output := console.output ++ text }
  | .complain text => { console with errors := console.errors ++ text }
  | .reportTime => { console with errors := console.errors ++ timeReport seconds }
  | .save artifact path text =>
    match console.disk.write path text.toUTF8.toList with
    | .ok disk => { console with disk }
    | .error error =>
      { console with output := console.output ++ saveFailure artifact (error.message path) }

/-- Performs effects in order. -/
def performAll (seconds : String) (console : Console) (effects : List Effect) : Console :=
  effects.foldl (perform seconds) console

end Console

end FLang
