/-!
# Integers as decimal text

Integers of any size are written and read in decimal, up to a bound on the number of digits: a
longer integer has no text, and a longer text no integer. The bound counts the digits of the text,
leading zeros included and the sign left out.
-/

namespace FLang.Decimal

/-- The most digits that a conversion between integers and text takes. -/
def digitLimit : Nat := 4300

/-- The decimal text of a natural number, without leading zeros. -/
def natDigits (n : Nat) : List Char :=
  Nat.toDigits 10 n

/-- The number that a run of ASCII digits denotes. -/
def natOfDigits (digits : List Char) : Nat :=
  Nat.ofDigitChars 10 digits 0

/-- Whether an integer has at most `digitLimit` digits. -/
def fits (n : Int) : Bool :=
  n.natAbs < Nat.pow 10 digitLimit

/-- The decimal text of an integer, of any size. -/
def intText (n : Int) : String :=
  String.ofList (if n < 0 then '-' :: natDigits n.natAbs else natDigits n.natAbs)

/-- The decimal text of an integer; none if it has more than `digitLimit` digits. -/
def intText? (n : Int) : Option String :=
  if fits n then some (intText n) else none

/-- What a text says as an integer. -/
inductive IntReading where
  /-- The text is not an optional sign followed by ASCII digits. -/
  | notInt
  /-- The text is one, with more than `digitLimit` digits. -/
  | tooLong (digits : Nat)
  /-- The text denotes this integer. -/
  | int (n : Int)
deriving DecidableEq, Repr

/-- Splits off a leading sign; true for a minus. -/
def splitSign : List Char → Bool × List Char
  | '-' :: rest => (true, rest)
  | '+' :: rest => (false, rest)
  | chars => (false, chars)

/-- Applies a sign to a magnitude. -/
def signed (negative : Bool) (n : Nat) : Int :=
  if negative then -(n : Int) else n

/-- Reads an optional sign and ASCII digits, and nothing else, as an integer. -/
def readInt (text : String) : IntReading :=
  let (negative, digits) := splitSign text.toList
  if digits.isEmpty || !digits.all Char.isDigit then .notInt
  else if digits.length > digitLimit then .tooLong digits.length
  else .int (signed negative (natOfDigits digits))

end FLang.Decimal
