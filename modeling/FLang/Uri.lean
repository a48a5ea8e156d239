import FLang.Path
import FLang.Text.Utf8

/-!
# URIs

The path that the URI of a document names, and the URI of a path. Bytes that a URI does not hold as
they are stand as percent escapes.
-/

namespace FLang.Uri

/-- A character of a scheme. -/
def isSchemePart (c : Char) : Bool :=
  c.isAlphanum || c = '+' || c = '-' || c = '.'

/-- The scheme of a URI, empty if there is none, and what follows it. -/
def splitScheme (uri : List Char) : List Char × List Char :=
  let scheme := uri.takeWhile (· ≠ ':')
  match uri.drop scheme.length, scheme with
  | ':' :: rest, first :: _ =>
    if first.isAlpha && scheme.all isSchemePart then (scheme.map Char.toLower, rest) else ([], uri)
  | _, _ => ([], uri)

/-- The schemes whose paths end in parameters after a semicolon; a URI without a scheme is one of
them. -/
def parameterSchemes : List String :=
  ["", "ftp", "hdl", "prospero", "http", "https", "shttp", "rtsp", "rtspu", "sip", "sips", "mms",
   "sftp", "tel"]

/-- A path without the parameters of its last part. -/
def withoutParameters (path : List Char) : List Char :=
  let name := Path.fileName path
  path.take (path.length - name.length) ++ name.takeWhile (· ≠ ';')

/-- What follows the authority of a URI, after its scheme. -/
def afterAuthority (rest : List Char) : List Char :=
  match rest with
  | '/' :: '/' :: more => more.dropWhile fun c => c ≠ '/' && c ≠ '?' && c ≠ '#'
  | _ => rest

/-- The path of a URI, without its fragment and its query. Control characters and blanks before the
URI, and line breaks and tabs in it, do not count. -/
def pathPart (uri : List Char) : List Char :=
  let clean := (uri.dropWhile (·.toNat ≤ 32)).filter fun c => c ≠ '\t' && c ≠ '\n' && c ≠ '\r'
  let (scheme, rest) := splitScheme clean
  let path := (afterAuthority rest).takeWhile fun c => c ≠ '#' && c ≠ '?'
  if parameterSchemes.contains (String.ofList scheme) then withoutParameters path else path

/-- The value of a hexadecimal digit. -/
def hexValue? (c : Char) : Option Nat :=
  if c.isDigit then some (c.toNat - 48)
  else if 'a' ≤ c && c ≤ 'f' then some (c.toNat - 87)
  else if 'A' ≤ c && c ≤ 'F' then some (c.toNat - 55)
  else none

/-- The bytes of an ASCII text with percent escapes. A percent sign without two hexadecimal digits
after it stands for itself. -/
def unescape : List Char → List UInt8
  | [] => []
  | '%' :: a :: b :: rest =>
    match hexValue? a, hexValue? b with
    | some high, some low => UInt8.ofNat (16 * high + low) :: unescape rest
    | _, _ => 37 :: unescape (a :: b :: rest)
  | c :: rest => UInt8.ofNat c.toNat :: unescape rest

/-- The text that percent escapes stand for, in at most `fuel` runs of ASCII and other characters.
Escaped bytes form characters only with escapes and ASCII characters next to them. -/
def decodeRuns : Nat → List Char → List Char
  | 0, _ => []
  | fuel + 1, text =>
    let plain := text.takeWhile (·.toNat < 128)
    let rest := text.drop plain.length
    let other := rest.takeWhile (·.toNat ≥ 128)
    if text.isEmpty then []
    else Utf8.repair (unescape plain) ++ other ++ decodeRuns fuel (rest.drop other.length)

/-- The text that percent escapes stand for. -/
def decode (text : List Char) : List Char :=
  decodeRuns text.length text

/-- A character that a path in a URI holds as it is. -/
def isPlain (c : Char) : Bool :=
  c.isAlphanum || c = '/' || c = '_' || c = '.' || c = '-' || c = '~'

/-- A hexadecimal digit of an escape. -/
def hexDigit (n : Nat) : Char :=
  (Nat.digitChar n).toUpper

/-- A byte in a URI. -/
def encodeByte (byte : UInt8) : List Char :=
  let c := Char.ofNat byte.toNat
  if isPlain c then [c] else '%' :: Utf8.hexByte hexDigit byte

/-- The URI of a path. -/
def ofPath (path : String) : String :=
  "file://" ++ String.ofList (path.toUTF8.toList.flatMap encodeByte)

/-- The path from the root that a URI names. -/
def toPath (current uri : String) : String :=
  Path.absolute current (String.ofList (decode (pathPart uri.toList)))

end FLang.Uri
