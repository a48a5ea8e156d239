/-!
# Paths

Names of files as texts with slashes. `absolute` gives a path its only form in which no part is
empty, a dot or two dots; `splitExtension` cuts off a file name's extension.
-/

namespace FLang.Path

/-- Whether a path starts at the root. -/
def isAbsolute (path : String) : Bool :=
  path.toList.head? = some '/'

/-- A path taken relative to a directory. -/
def join (directory path : String) : String :=
  if isAbsolute path then path
  else if directory = "" || directory.toList.getLast? = some '/' then directory ++ path
  else directory ++ "/" ++ path

/-- The slashes at the start of a normal path: two if it starts with exactly two. -/
def rootSlashes (path : List Char) : List Char :=
  match path with
  | '/' :: '/' :: '/' :: _ => ['/']
  | '/' :: '/' :: _ => ['/', '/']
  | '/' :: _ => ['/']
  | _ => []

/-- The parts of a path between its slashes. -/
def parts (path : List Char) : List (List Char) :=
  path.splitOn '/'

/-- Takes one more part into a reversed list of parts. Two dots take back the part before them, and
stay only where there is none and the path does not start at the root. -/
def addPart (rooted : Bool) (kept : List (List Char)) (part : List Char) : List (List Char) :=
  if part = [] || part = ['.'] then kept
  else if part = ['.', '.'] then
    match kept with
    | [] => if rooted then [] else [part]
    | last :: before => if last = ['.', '.'] then part :: kept else before
  else part :: kept

/-- The same path without parts that are empty, a dot, or taken back. -/
def normal (path : String) : String :=
  let slashes := rootSlashes path.toList
  let kept := ((parts path.toList).foldl (addPart (!slashes.isEmpty)) []).reverse
  let text := slashes ++ ['/'].intercalate kept
  if text.isEmpty then "." else String.ofList text

/-- A path from the root, relative to the current directory. -/
def absolute (current path : String) : String :=
  normal (join current path)

/-- The file name of a path: what follows its last slash. -/
def fileName (path : List Char) : List Char :=
  (path.reverse.takeWhile (· ≠ '/')).reverse

/-- A path without its extension, and the extension with its dot. Dots at the start of a file name
start no extension. -/
def splitExtension (path : String) : String × String :=
  let name := (fileName path.toList).dropWhile (· = '.')
  if name.contains '.' then
    let count := (name.reverse.takeWhile (· ≠ '.')).length + 1
    let cut := path.length - count
    (String.ofList (path.toList.take cut), String.ofList (path.toList.drop cut))
  else (path, "")

end FLang.Path
