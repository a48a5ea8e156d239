import FLang.CommandLine

/-!
# The command

Reads the input of the command line, and performs the effects that it leads to.
-/

namespace FLang.CommandLine

/-- Why a file could not be read or written. -/
def fileError : IO.Error → FileError
  | .noFileOrDirectory .. => .missing
  | .inappropriateType .. => .isADirectory
  | _ => .notADirectory

/-- Everything that is left on the standard input. -/
partial def readStream (input : IO.FS.Stream) (read : ByteArray) : IO ByteArray := do
  let more ← input.read 65536
  if more.isEmpty then return read else readStream input (read ++ more)

/-- The content of the input. -/
def readInput (invocation : Arguments.Invocation) : IO (Except FileError (List UInt8)) := do
  if isPiped invocation then
    return .ok (← readStream (← IO.getStdin) .empty).toList
  else
    try
      let content ← IO.FS.readBinFile invocation.inputFile
      return .ok content.toList
    catch error => return .error (fileError error)

/-- A duration in seconds with four decimals. -/
def secondsText (nanoseconds : Nat) : String :=
  let units := (nanoseconds + 50000) / 100000
  let decimals := (units % 10000).repr
  (units / 10000).repr ++ "." ++ String.ofList (List.replicate (4 - decimals.length) '0') ++
    decimals

/-- Performs an effect of a command that was started at some time. -/
def performEffect (started : Nat) : Effect → IO Unit
  | .print text => IO.print text
  | .complain text => IO.eprint text
  | .reportTime => do IO.eprint (timeReport (secondsText ((← IO.monoNanosNow) - started)))
  | .save artifact path text => do
    try IO.FS.writeFile path text
    catch error => IO.print (saveFailure artifact ((fileError error).message path))

/-- Runs the command: its exit status. -/
def execute (texts : List String) : IO UInt32 := do
  let started ← IO.monoNanosNow
  let report ←
    match Arguments.Invocation.ofTexts texts with
    | .error refusal => pure (refuse refusal)
    | .ok invocation => do
      let current ← IO.currentDir
      pure (report current.toString invocation (← readInput invocation))
  for effect in report.effects do
    performEffect started effect
  return report.status.toUInt32

end FLang.CommandLine

/-- The entry point of the command. -/
def main (texts : List String) : IO UInt32 :=
  FLang.CommandLine.execute texts
