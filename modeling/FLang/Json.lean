import FLang.Decimal.Layout
import FLang.Fault

/-!
# JSON

JSON documents whose objects keep the order of their fields, and the two ways of writing them: on
one line, and over several indented lines. The text is ASCII: other characters are escaped, those
beyond sixteen bits as surrogate pairs. Floats without a decimal form have names of their own, and
an integer of too many digits cannot be written.
-/

namespace FLang

/-- A JSON document. -/
inductive Json where
  | null
  | bool (value : Bool)
  | int (value : Int)
  | float (value : Float)
  | string (value : String)
  | array (items : List Json)
  | object (fields : List (String × Json))
deriving Inhabited

namespace Json

/-- A digit of a hexadecimal escape. -/
def hexDigit (n : Nat) : Char :=
  if n < 10 then Char.ofNat (48 + n) else Char.ofNat (87 + n)

/-- The escape of a sixteen-bit unit. -/
def unitEscape (n : Nat) : List Char :=
  ['\\', 'u', hexDigit (n / 4096 % 16), hexDigit (n / 256 % 16), hexDigit (n / 16 % 16),
   hexDigit (n % 16)]

/-- A character inside a string. -/
def escaped (c : Char) : List Char :=
  match c with
  | '"' => ['\\', '"']
  | '\\' => ['\\', '\\']
  | '\n' => ['\\', 'n']
  | '\r' => ['\\', 'r']
  | '\t' => ['\\', 't']
  | '\x0c' => ['\\', 'f']
  | '\x08' => ['\\', 'b']
  | c =>
    if 32 ≤ c.toNat ∧ c.toNat < 127 then [c]
    else if c.toNat < 65536 then unitEscape c.toNat
    else
      let offset := c.toNat - 65536
      unitEscape (55296 + offset / 1024) ++ unitEscape (56320 + offset % 1024)

/-- A string in quotes. -/
def quoted (text : String) : String :=
  "\"" ++ String.ofList (text.toList.flatMap escaped) ++ "\""

/-- The text of a float. -/
def floatText (x : Float) : String :=
  if x.isNaN then "NaN"
  else if x.isInf then (if x < 0.0 then "-Infinity" else "Infinity")
  else Decimal.Layout.value.write x

/-- The text of an integer. -/
def intText (n : Int) : Except Fault String :=
  match Decimal.intText? n with
  | some digits => .ok digits
  | none => .error (.tooManyDigits none)

/-- How items are set apart inside the brackets at some depth of nesting. -/
structure Spacing where
  /-- Before the first item. -/
  opening : Nat → String
  /-- Between two items. -/
  between : Nat → String
  /-- After the last item. -/
  closing : Nat → String

/-- Everything on one line. -/
def Spacing.line : Spacing :=
  ⟨fun _ => "", fun _ => ", ", fun _ => ""⟩

/-- The break before a line at some depth of nesting. -/
def lineBreak (depth : Nat) : String :=
  "\n" ++ String.ofList (List.replicate (2 * depth) ' ')

/-- An item a line, indented by two blanks for each depth of nesting. -/
def Spacing.indented : Spacing :=
  ⟨fun depth => lineBreak (depth + 1), fun depth => "," ++ lineBreak (depth + 1), lineBreak⟩

/-- The items inside brackets; brackets without items stand close together. -/
def enclose (spacing : Spacing) (depth : Nat) (left right : String) (items : List String) :
    String :=
  match items with
  | [] => left ++ right
  | items =>
    left ++ spacing.opening depth ++ String.intercalate (spacing.between depth) items ++
      spacing.closing depth ++ right

mutual

/-- The text of a document at some depth of nesting. -/
def write (spacing : Spacing) (depth : Nat) : Json → Except Fault String
  | .null => .ok "null"
  | .bool value => .ok (if value then "true" else "false")
  | .int value => intText value
  | .float value => .ok (floatText value)
  | .string value => .ok (quoted value)
  | .array items => do
    return enclose spacing depth "[" "]" (← writeItems spacing (depth + 1) items)
  | .object fields => do
    return enclose spacing depth "\x7b" "\x7d" (← writeFields spacing (depth + 1) fields)

/-- The texts of some documents. -/
def writeItems (spacing : Spacing) (depth : Nat) : List Json → Except Fault (List String)
  | [] => .ok []
  | first :: rest => do
    let text ← write spacing depth first
    return text :: (← writeItems spacing depth rest)

/-- The texts of some fields. -/
def writeFields (spacing : Spacing) (depth : Nat) :
    List (String × Json) → Except Fault (List String)
  | [] => .ok []
  | (name, value) :: rest => do
    let text ← write spacing depth value
    return (quoted name ++ ": " ++ text) :: (← writeFields spacing depth rest)

end

/-- The text of a document on one line. -/
def compact (document : Json) : Except Fault String :=
  document.write .line 0

/-- The text of a document over several lines. -/
def pretty (document : Json) : Except Fault String :=
  document.write .indented 0

end Json

end FLang
