/-!
# UTF-8

Reading characters from bytes. Where the bytes are malformed, the reader says how many of them it
gives up: the longest start of a character that is there, or a single byte that starts none.
-/

namespace FLang.Utf8

/-- Why bytes do not form a character. -/
inductive Reason where
  /-- No character starts with this byte. -/
  | start
  /-- A character starts here, and a byte that does not continue it follows. -/
  | continuation
  /-- A character starts here, and the bytes end before it does. -/
  | truncated
deriving DecidableEq, Repr

/-- Bytes that do not form a character. -/
structure Malformed where
  /-- How many bytes are before them. -/
  position : Nat
  /-- How many bytes they are. -/
  count : Nat
  /-- The first of them. -/
  byte : UInt8
  /-- Why they do not form a character. -/
  reason : Reason
deriving DecidableEq, Repr

/-- The wording of a reason. -/
def Reason.message : Reason → String
  | .start => "invalid start byte"
  | .continuation => "invalid continuation byte"
  | .truncated => "unexpected end of data"

/-- A byte as two hexadecimal digits. -/
def hexByte (digit : Nat → Char) (byte : UInt8) : List Char :=
  [digit (byte.toNat / 16), digit (byte.toNat % 16)]

/-- The wording of a decoding error. -/
def Malformed.message (m : Malformed) : String :=
  let place :=
    if m.count = 1 then
      "byte 0x" ++ String.ofList (hexByte Nat.digitChar m.byte) ++ " in position " ++
        m.position.repr
    else
      "bytes in position " ++ m.position.repr ++ "-" ++ (m.position + m.count - 1).repr
  "'utf-8' codec can't decode " ++ place ++ ": " ++ m.reason.message

/-- How many bytes the character has that starts with a byte. -/
def width? (first : UInt8) : Option Nat :=
  if first < 0x80 then some 1
  else if first < 0xC2 then none
  else if first < 0xE0 then some 2
  else if first < 0xF0 then some 3
  else if first < 0xF5 then some 4
  else none

/-- A byte that continues a character. -/
def isContinuation (byte : UInt8) : Bool :=
  0x80 ≤ byte && byte < 0xC0

/-- A second byte that continues a character of this first byte: no character has a longer form
than it needs, none is a surrogate, and none is beyond the last one. -/
def isSecond (first second : UInt8) : Bool :=
  isContinuation second &&
  !(first == 0xE0 && second < 0xA0) && !(first == 0xED && second ≥ 0xA0) &&
  !(first == 0xF0 && second < 0x90) && !(first == 0xF4 && second ≥ 0x90)

/-- The bytes that continue a character of this first byte, at most so many. -/
def continuation (first : UInt8) (count : Nat) : List UInt8 → List UInt8
  | [] => []
  | second :: rest =>
    if isSecond first second then second :: (rest.take (count - 1)).takeWhile isContinuation
    else []

/-- The code point of a character's bytes. -/
def codePoint (width : Nat) (first : UInt8) (more : List UInt8) : Nat :=
  let lead := if width = 1 then first.toNat else first.toNat % Nat.pow 2 (7 - width)
  more.foldl (fun n byte => 64 * n + byte.toNat % 64) lead

/-- The first character of some bytes and the number of its bytes; or the number of bytes to give
up, and why. -/
def step (first : UInt8) (rest : List UInt8) : Except (Nat × Reason) (Char × Nat) :=
  match width? first with
  | none => .error (1, .start)
  | some width =>
    let more := if width = 1 then [] else continuation first (width - 1) rest
    if more.length + 1 = width then .ok (Char.ofNat (codePoint width first more), width)
    else
      .error (more.length + 1, if more.length = rest.length then .truncated else .continuation)

/-- The characters of some bytes, of which at most `fuel` are read, after `position` others. -/
def decodeFrom : Nat → Nat → List UInt8 → Except Malformed (List Char)
  | 0, _, _ => .ok []
  | _, _, [] => .ok []
  | fuel + 1, position, first :: rest =>
    match step first rest with
    | .error (count, reason) => .error { position, count, byte := first, reason }
    | .ok (c, width) => do
      return c :: (← decodeFrom fuel (position + width) (rest.drop (width - 1)))

/-- The text of some bytes. -/
def decode (bytes : List UInt8) : Except Malformed String :=
  (decodeFrom bytes.length 0 bytes).map String.ofList

/-- The characters of some bytes, of which at most `fuel` are read, with a replacement character
for whatever is malformed. -/
def repairFrom : Nat → List UInt8 → List Char
  | 0, _ => []
  | _, [] => []
  | fuel + 1, first :: rest =>
    match step first rest with
    | .error (count, _) => '�' :: repairFrom fuel (rest.drop (count - 1))
    | .ok (c, width) => c :: repairFrom fuel (rest.drop (width - 1))

/-- The text of some bytes, with a replacement character for whatever is malformed. -/
def repair (bytes : List UInt8) : List Char :=
  repairFrom bytes.length bytes

end FLang.Utf8
