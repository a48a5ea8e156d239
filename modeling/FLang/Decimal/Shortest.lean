/-!
# The shortest decimal of a float

A finite double is `m · 2 ^ q`. The reals that round to it form an interval around it, whose ends
belong to it exactly when `m` is even. `shortest` is the decimal of fewest digits in that interval
and, of those, the one nearest to the double; the arithmetic is on natural numbers and exact.
-/

namespace FLang.Decimal

/-- A decimal `digits · 10 ^ exponent`. -/
structure Scientific where
  /-- The digits, read as one natural number. -/
  digits : Nat
  /-- The power of ten of the last digit. -/
  exponent : Int
deriving DecidableEq, Repr

/-- What a double is. -/
inductive Shape where
  /-- Not a number. -/
  | nan
  /-- An infinity. -/
  | infinite (negative : Bool)
  /-- The number `mantissa · 2 ^ exponent`, up to sign. -/
  | finite (negative : Bool) (mantissa : Nat) (exponent : Int)
deriving DecidableEq, Repr

/-- The exponent of the smallest doubles. -/
def leastExponent : Int := -1074

/-- Takes a double apart. -/
def shape (x : Float) : Shape :=
  let bits := x.toBits.toNat
  let negative := bits ≥ Nat.pow 2 63
  let biased : Nat := bits / Nat.pow 2 52 % Nat.pow 2 11
  let fraction : Nat := bits % Nat.pow 2 52
  if biased = 2047 then
    if fraction = 0 then .infinite negative else .nan
  else if biased = 0 then .finite negative fraction leastExponent
  else .finite negative (Nat.pow 2 52 + fraction) ((biased : Int) + leastExponent - 1)

/-- A real number between two others, as numerators over one denominator. -/
structure Interval where
  /-- Numerator of the lower end. -/
  low : Nat
  /-- Numerator of the value. -/
  value : Nat
  /-- Numerator of the upper end. -/
  high : Nat
  /-- The common denominator. -/
  denominator : Nat
  /-- Whether the ends belong to the interval. -/
  closed : Bool
deriving DecidableEq, Repr

/-- The interval of reals that round to the double `mantissa · 2 ^ exponent`. Just below a power
of two the doubles are twice as dense. -/
def rounding (mantissa : Nat) (exponent : Int) : Interval :=
  let below := if mantissa = Nat.pow 2 52 && exponent > leastExponent then 1 else 2
  let scale := Nat.pow 2 (exponent - 2).toNat
  { low := (4 * mantissa - below) * scale
    value := 4 * mantissa * scale
    high := (4 * mantissa + 2) * scale
    denominator := Nat.pow 2 (2 - exponent).toNat
    closed := mantissa % 2 = 0 }

/-- The same interval in units of `10 ^ exponent`. -/
def Interval.inUnits (i : Interval) (exponent : Int) : Interval :=
  let up := Nat.pow 10 (-exponent).toNat
  { i with
    low := i.low * up
    value := i.value * up
    high := i.high * up
    denominator := i.denominator * Nat.pow 10 exponent.toNat }

/-- Whether a whole number of units lies in the interval. -/
def Interval.holds (i : Interval) (units : Nat) : Bool :=
  let n := units * i.denominator
  if i.closed then i.low ≤ n && n ≤ i.high else i.low < n && n < i.high

/-- The whole number in the interval that is nearest to its value, if there is one. Of two that
are equally near, the even one. -/
def Interval.nearest? (i : Interval) : Option Nat :=
  let floor := i.value / i.denominator
  let toFloor := i.value - floor * i.denominator
  let toCeiling := (floor + 1) * i.denominator - i.value
  match i.holds floor, i.holds (floor + 1) with
  | false, false => none
  | true, false => some floor
  | false, true => some (floor + 1)
  | true, true =>
    if toFloor < toCeiling then some floor
    else if toCeiling < toFloor then some (floor + 1)
    else if floor % 2 = 0 then some floor else some (floor + 1)

/-- Searches the grids of spacing `10 ^ exponent`, ever finer, for a point in the interval. -/
def Interval.firstHit (i : Interval) : Nat → Int → Option Scientific
  | 0, _ => none
  | fuel + 1, exponent =>
    match (i.inUnits exponent).nearest? with
    | some digits => some ⟨digits, exponent⟩
    | none => i.firstHit fuel (exponent - 1)

/-- The least `p` at or after a start with `value < 10 ^ p`. -/
def Interval.magnitude (i : Interval) : Nat → Int → Int
  | 0, p => p
  | fuel + 1, p =>
    if (i.inUnits p).value < (i.inUnits p).denominator then p else i.magnitude fuel (p + 1)

/-- A lower bound for the magnitude, from the number of binary digits. -/
def Interval.magnitudeBound (i : Interval) : Int :=
  ((Nat.log2 i.value : Int) - Nat.log2 i.denominator - 1) * 30103 / 100000 - 1

/-- Drops zeros at the end of the digits, at most `fuel` of them. -/
def Scientific.trim : Nat → Scientific → Scientific
  | 0, s => s
  | fuel + 1, s =>
    if s.digits ≠ 0 && s.digits % 10 = 0 then trim fuel ⟨s.digits / 10, s.exponent + 1⟩ else s

/-- The shortest decimal that rounds to the positive double `mantissa · 2 ^ exponent`, and of
those the nearest to it. Seventeen digits always suffice. -/
def shortest (mantissa : Nat) (exponent : Int) : Scientific :=
  if mantissa = 0 then ⟨0, 0⟩
  else
    let i := rounding mantissa exponent
    let p := i.magnitude 8 i.magnitudeBound
    ((i.firstHit 18 (p - 1)).getD ⟨0, 0⟩).trim 17

end FLang.Decimal
