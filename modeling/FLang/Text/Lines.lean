/-!
# Lines

Two views of the line breaks of a text: the lines of an editor, each with its break, and the text
of a source file, in which every break is a newline.
-/

namespace FLang.Text

/-- A character that ends a line in an editor. -/
def isLineBreak (c : Char) : Bool :=
  let n := c.toNat
  (10 ≤ n && n ≤ 13) || (0x1C ≤ n && n ≤ 0x1E) || n == 0x85 || n == 0x2028 || n == 0x2029

/-- The lines of a text, each with the break that ends it. A carriage return and a newline after it
are one break. -/
def lines : List Char → List (List Char)
  | [] => []
  | '\r' :: '\n' :: rest => ['\r', '\n'] :: lines rest
  | c :: rest =>
    if isLineBreak c then [c] :: lines rest
    else
      match lines rest with
      | [] => [[c]]
      | first :: more => (c :: first) :: more

/-- The same text with each carriage return, and the newline after it if there is one, read as a
newline. -/
def unifyBreaks : List Char → List Char
  | [] => []
  | '\r' :: '\n' :: rest => '\n' :: unifyBreaks rest
  | '\r' :: rest => '\n' :: unifyBreaks rest
  | c :: rest => c :: unifyBreaks rest

end FLang.Text
