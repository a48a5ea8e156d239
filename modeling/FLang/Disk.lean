import FLang.Path
import FLang.Text.Quoted

/-!
# Files

Why a file cannot be read or written, and a directory tree in memory, on which commands can run
without touching any real file.
-/

namespace FLang

/-- Why a file cannot be read or written. -/
inductive FileError where
  /-- It, or a directory of its path, does not exist. -/
  | missing
  /-- A directory of its path is a file. -/
  | notADirectory
  /-- It is a directory. -/
  | isADirectory
  /-- A name in its path is too long. -/
  | nameTooLong
deriving DecidableEq, Repr

namespace FileError

/-- The name of a kind of error, as a report of an unexpected one begins. -/
def title : FileError → String
  | missing => "FileNotFoundError"
  | notADirectory => "NotADirectoryError"
  | isADirectory => "IsADirectoryError"
  | nameTooLong => "OSError"

/-- The wording of an error. -/
def message (error : FileError) (path : String) : String :=
  let reason :=
    match error with
    | missing => "[Errno 2] No such file or directory"
    | notADirectory => "[Errno 20] Not a directory"
    | isADirectory => "[Errno 21] Is a directory"
    | nameTooLong => "[Errno 36] File name too long"
  reason ++ ": " ++ Text.quoted path

end FileError

/-- A file or a directory. -/
inductive Entry where
  | directory
  | file (content : List UInt8)
deriving DecidableEq

/-- A directory tree. Entries are found by their names on the way from the root directory, and
later ones count. -/
structure Disk where
  /-- The path of the root directory, which is the current one. -/
  root : String
  /-- What is in the root directory and below it. -/
  entries : List (List String × Entry)

namespace Disk

/-- The names on the way from the root directory to a path; none if the path is outside of it. -/
def names? (disk : Disk) (path : String) : Option (List String) :=
  let parts (text : String) := (Path.parts text.toList).map String.ofList
  let root := parts (Path.absolute disk.root "")
  let names := parts (Path.absolute disk.root path)
  if root.isPrefixOf names then some (names.drop root.length) else none

/-- The entry of some names. -/
def find? (disk : Disk) (names : List String) : Option Entry :=
  if names.isEmpty then some .directory else disk.entries.lookup names

/-- The longest name of a file in bytes. -/
def nameLimit : Nat := 255

/-- Looks up the names that follow some others: the last of them, if it exists, in directories that
do. -/
def walk (disk : Disk) : List String → List String → Except FileError (Option Entry)
  | before, [] => .ok (disk.find? before)
  | before, name :: rest =>
    if name.utf8ByteSize > nameLimit then .error .nameTooLong
    else
      let here := before ++ [name]
      match rest, disk.find? here with
      | [], found => .ok found
      | _ :: _, none => .error .missing
      | _ :: _, some (.file _) => .error .notADirectory
      | _ :: _, some .directory => walk disk here rest

/-- The content of a file. -/
def read (disk : Disk) (path : String) : Except FileError (List UInt8) :=
  match disk.names? path with
  | none => .error .missing
  | some names =>
    match disk.walk [] names with
    | .error error => .error error
    | .ok none => .error .missing
    | .ok (some .directory) => .error .isADirectory
    | .ok (some (.file content)) => .ok content

/-- Puts an entry in its place, together with the directories above it. -/
def add (disk : Disk) (path : String) (entry : Entry) : Disk :=
  match disk.names? path with
  | none => disk
  | some names =>
    let above := (List.range names.length).drop 1 |>.map fun count => (names.take count, .directory)
    { disk with entries := (names, entry) :: disk.entries ++ above }

/-- Writes a file in a directory that exists. -/
def write (disk : Disk) (path : String) (content : List UInt8) : Except FileError Disk :=
  match disk.names? path with
  | none => .error .missing
  | some names =>
    match disk.walk [] names with
    | .error error => .error error
    | .ok (some .directory) => .error .isADirectory
    | .ok _ => .ok { disk with entries := (names, .file content) :: disk.entries }

/-- The files of a directory tree, each once. -/
def files (disk : Disk) : List (String × List UInt8) :=
  (disk.entries.map Prod.fst).eraseDups.filterMap fun names =>
    match disk.entries.lookup names with
    | some (.file content) => some (String.intercalate "/" names, content)
    | _ => none

end Disk

end FLang
