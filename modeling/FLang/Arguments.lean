import FLang.Decimal.Lenient
import FLang.Limits
import FLang.Pipeline
import FLang.Text.Quoted

/-!
# Command-line arguments

A command line names a source file and the arguments of its entry function, with flags between them.
Flags may be shortened as long as they stay unique, and their values may be attached to them. The
source file and the arguments stand together: what follows a later flag is not recognized. A double
dash ends the flags. Negative numbers are not flags, and neither is a text with a blank in it.
-/

namespace FLang.Arguments

/-- A flag of the command line. -/
inductive Flag where
  | help
  | stage
  | entry
  | format
  | time
  | identifierLimit
  | stringLimit
  | intLimit
  | maxRecursionDepth
deriving DecidableEq, Repr

namespace Flag

/-- Every flag, in the order in which they are listed to a user. -/
def all : List Flag :=
  [help, stage, entry, format, time, identifierLimit, stringLimit, intLimit, maxRecursionDepth]

/-- The spellings of a flag. -/
def spellings : Flag → List String
  | help => ["-h", "--help"]
  | stage => ["-c", "--stage"]
  | entry => ["--entry"]
  | format => ["--format"]
  | time => ["--time"]
  | identifierLimit => ["--identifier-limit"]
  | stringLimit => ["--string-limit"]
  | intLimit => ["--int-limit"]
  | maxRecursionDepth => ["--max-recursion-depth"]

/-- Whether a flag has a value. -/
def takesValue : Flag → Bool
  | help | format | time => false
  | _ => true

/-- Every spelling, with its flag. -/
def table : List (String × Flag) :=
  all.flatMap fun flag => flag.spellings.map fun spelling => (spelling, flag)

/-- The flag of a spelling. -/
def ofSpelling? (spelling : String) : Option Flag :=
  table.lookup spelling

/-- An error about a flag. -/
def complaint (flag : Flag) (message : String) : String :=
  "argument " ++ String.intercalate "/" flag.spellings ++ ": " ++ message

end Flag

/-- What the user asks for. -/
structure Invocation where
  /-- The path of the source file; a dash for the standard input. -/
  inputFile : String := ""
  /-- The arguments of the entry function. -/
  arguments : List String := []
  /-- The stage to stop after, with its number. -/
  stage : Option (String × Pipeline.Stage) := none
  /-- The function to call. -/
  entry : String := "main"
  /-- Whether the program is printed instead of being run. -/
  format : Bool := false
  /-- Whether the time is reported. -/
  time : Bool := false
  identifierLimit : Int := ({} : Limits).identifierLimit
  stringLimit : Int := ({} : Limits).stringLimit
  intLimit : Int := ({} : Limits).intLimit
  maxRecursionDepth : Int := defaultRecursionDepth
deriving DecidableEq, Repr

/-- Why a command line is not an invocation. -/
inductive Refusal where
  /-- It is wrong. -/
  | usage (message : String)
  /-- The user asks for help. -/
  | help
deriving DecidableEq, Repr

/-! ### Recognizing flags -/

/-- What a text holds beside a flag. -/
inductive Attached where
  | nothing
  /-- A value after an equals sign. -/
  | value (text : String)
  /-- What follows the letter of a flag with a single dash. -/
  | letters (text : List Char)
deriving DecidableEq, Repr

/-- What one text of a command line is. -/
inductive Item where
  /-- Not a flag. -/
  | plain (text : String)
  /-- The double dash that ends the flags. -/
  | separator
  /-- A flag, and what is attached to it. -/
  | flag (flag : Flag) (attached : Attached)
  /-- It looks like a flag, and is none. -/
  | unknown (text : String)
deriving DecidableEq, Repr

/-- A text up to its first equals sign, and what follows the sign if there is one. -/
def splitValue (text : String) : String × Attached :=
  let name := text.toList.takeWhile (· ≠ '=')
  match text.toList.drop name.length with
  | _ :: value => (String.ofList name, .value (String.ofList value))
  | [] => (text, .nothing)

/-- A flag that a text can stand for. -/
structure Match where
  flag : Flag
  spelling : String
  attached : Attached

/-- The flags that a text may abbreviate. After a single dash, the first letter may be a flag with
the rest as its value. -/
def abbreviated (text : String) : List Match :=
  match text.toList with
  | '-' :: '-' :: _ =>
    let (name, attached) := splitValue text
    Flag.table.filterMap fun (spelling, flag) =>
      if name.toList.isPrefixOf spelling.toList then some ⟨flag, spelling, attached⟩ else none
  | '-' :: letter :: rest =>
    Flag.table.filterMap fun (spelling, flag) =>
      if spelling.toList = ['-', letter] then some ⟨flag, spelling, .letters rest⟩
      else if text.toList.isPrefixOf spelling.toList then some ⟨flag, spelling, .nothing⟩
      else none
  | _ => []

/-- A decimal digit of any script. -/
def isDecimal (c : Char) : Bool :=
  (Text.digitValue? c).isSome

/-- Whether a text is a negative number: digits after the dash, with at most one point before the
last of them. A line may end after it. -/
def isNegativeNumber (text : String) : Bool :=
  match text.toList with
  | '-' :: rest =>
    let number := if rest.getLast? = some '\n' then rest.dropLast else rest
    let whole := number.takeWhile isDecimal
    match number.drop whole.length with
    | [] => !whole.isEmpty
    | '.' :: fraction => !fraction.isEmpty && fraction.all isDecimal
    | _ => false
  | _ => false

/-- What a text is before any double dash. -/
def classify (text : String) : Except String Item :=
  match text.toList with
  | '-' :: _ :: _ =>
    let (name, attached) := splitValue text
    match Flag.ofSpelling? name with
    | some flag => .ok (.flag flag attached)
    | none =>
      match abbreviated text with
      | [m] => .ok (.flag m.flag m.attached)
      | [] =>
        if isNegativeNumber text || text.toList.contains ' ' then .ok (.plain text)
        else .ok (.unknown text)
      | several =>
        .error ("ambiguous option: " ++ text ++ " could match " ++
          String.intercalate ", " (several.map Match.spelling))
  | _ => .ok (.plain text)

/-- What the texts of a command line are. -/
def items : List String → Except String (List Item)
  | [] => .ok []
  | text :: rest =>
    if text = "--" then .ok (.separator :: rest.map .plain)
    else do
      let item ← classify text
      return item :: (← items rest)

/-! ### Collecting the invocation -/

/-- What has been collected so far. -/
structure State where
  invocation : Invocation := {}
  /-- Whether the source file and the arguments have been found. -/
  named : Bool := false
  /-- What was not recognized. -/
  extras : List String := []

/-- An item that is no flag, as the user wrote it. -/
def Item.text : Item → String
  | .plain text | .unknown text => text
  | .separator => "--"
  | .flag _ _ => ""

/-- Whether an item is no flag. -/
def Item.isPositional : Item → Bool
  | .plain _ | .separator => true
  | _ => false

/-- Whether an item is the double dash. -/
def Item.isSeparator : Item → Bool
  | .separator => true
  | _ => false

/-- The value of a number flag. -/
def readNumber (flag : Flag) (text : String) : Except Refusal Int :=
  match Decimal.readLenient? text with
  | some n => .ok n
  | none => .error (.usage (flag.complaint ("invalid int value: " ++ Text.quoted text)))

/-- The stages that can be chosen, by their numbers. -/
def stageNumbers : List (String × Pipeline.Stage) :=
  [("1", .tokens), ("2", .tree)]

/-- Takes the value of a flag into an invocation. -/
def setFlag (invocation : Invocation) (flag : Flag) (value : String) :
    Except Refusal Invocation :=
  match flag with
  | .help => .error .help
  | .format => .ok { invocation with format := true }
  | .time => .ok { invocation with time := true }
  | .entry => .ok { invocation with entry := value }
  | .stage =>
    match stageNumbers.lookup value with
    | some stage => .ok { invocation with stage := some (value, stage) }
    | none =>
      .error (.usage (flag.complaint ("invalid choice: " ++ Text.quoted value ++
        " (choose from " ++
        String.intercalate ", " (stageNumbers.map fun choice => Text.quoted choice.1) ++ ")")))
  | .identifierLimit => do return { invocation with identifierLimit := ← readNumber flag value }
  | .stringLimit => do return { invocation with stringLimit := ← readNumber flag value }
  | .intLimit => do return { invocation with intLimit := ← readNumber flag value }
  | .maxRecursionDepth => do
    return { invocation with maxRecursionDepth := ← readNumber flag value }

/-- The error that a flag takes no value. -/
def ignoredValue (flag : Flag) (value : String) : Refusal :=
  .usage (flag.complaint ("ignored explicit argument " ++ Text.quoted value))

/-- The flags of the letters after a flag with a single dash: its value, or the letters of further
flags if it has none. The last flag comes first, with its value if that is among the letters.
Letters that are no flags are passed over: the only flag before them asks for help. -/
def letterFlags : List Char → Flag → List (Flag × Option String) →
    Except Refusal (List (Flag × Option String))
  | [], flag, before => .ok ((flag, none) :: before)
  | letter :: rest, flag, before =>
    if flag.takesValue then .ok ((flag, some (String.ofList (letter :: rest))) :: before)
    else if letter = '-' then .error (ignoredValue flag (String.ofList (letter :: rest)))
    else
      match Flag.ofSpelling? (String.ofList ['-', letter]), rest with
      | none, _ => .ok ((flag, none) :: before)
      | some flag', '=' :: value =>
        if flag'.takesValue then
          .ok ((flag', some (String.ofList value)) :: (flag, none) :: before)
        else .error (ignoredValue flag' (String.ofList value))
      | some flag', rest => letterFlags rest flag' ((flag, none) :: before)

/-- The flags of an item. The last flag comes first, with its value if that is in the item. -/
def Item.flags : Item → Except Refusal (List (Flag × Option String))
  | .flag first .nothing => .ok [(first, none)]
  | .flag first (.letters letters) => letterFlags letters first []
  | .flag first (.value value) =>
    if first.takesValue then .ok [(first, some value)] else .error (ignoredValue first value)
  | _ => .ok []

/-- Takes flags with their values into an invocation, the last of the list first. -/
def setFlags (invocation : Invocation) : List (Flag × Option String) → Except Refusal Invocation
  | [] => .ok invocation
  | (flag, value) :: earlier => do
    let before ← setFlags invocation earlier
    setFlag before flag (value.getD "")

/-- Gives the last of some flags the value that it still needs, from the items that follow; also the
items that are left. -/
def withValue (flags : List (Flag × Option String)) (rest : List Item) :
    Except Refusal (List (Flag × Option String) × List Item) :=
  match flags, rest with
  | (flag, none) :: before, _ =>
    if flag.takesValue then
      match rest with
      | .plain value :: rest => .ok ((flag, some value) :: before, rest)
      | _ => .error (.usage (flag.complaint "expected one argument"))
    else .ok (flags, rest)
  | _, _ => .ok (flags, rest)

/-- Takes the source file and the arguments from the start of some items, if they are there; also
the items that are left. A double dash among them is dropped, and so is a second one. -/
def takeNames (state : State) (list : List Item) : State × List Item :=
  let leading := list.takeWhile Item.isSeparator
  match state.named, list.drop leading.length with
  | false, .plain inputFile :: rest =>
    let trailing := rest.takeWhile Item.isSeparator
    let arguments := (rest.drop trailing.length).takeWhile Item.isPositional
    let invocation :=
      { state.invocation with inputFile, arguments := (arguments.map Item.text).erase "--" }
    ({ state with invocation, named := true },
      rest.drop (trailing.length + arguments.length))
  | _, _ => (state, list)

/-- Takes what stands before the next flag: the source file and the arguments, if they have not been
found yet; anything else is not recognized. -/
def takePositionals (state : State) (list : List Item) : State × List Item :=
  let (state, rest) := takeNames state list
  let extras := rest.takeWhile Item.isPositional
  ({ state with extras := state.extras ++ extras.map Item.text }, rest.drop extras.length)

/-- Collects the items, at most `fuel` of them. -/
def collect : Nat → State → List Item → Except Refusal State
  | 0, state, _ => .ok state
  | fuel + 1, state, list =>
    match takePositionals state list with
    | (state, []) => .ok state
    | (state, .unknown text :: rest) =>
      collect fuel { state with extras := state.extras ++ [text] } rest
    | (state, item :: rest) => do
      let (flags, rest) ← withValue (← item.flags) rest
      collect fuel { state with invocation := ← setFlags state.invocation flags } rest

/-- The invocation that a command line stands for. -/
def Invocation.ofTexts (texts : List String) : Except Refusal Invocation :=
  match items texts with
  | .error message => .error (.usage message)
  | .ok list => do
    let state ← collect (list.length + 1) {} list
    if !state.named then
      .error (.usage "the following arguments are required: input_file, arguments")
    else if !state.extras.isEmpty then
      .error (.usage ("unrecognized arguments: " ++ String.intercalate " " state.extras))
    else .ok state.invocation

end FLang.Arguments
