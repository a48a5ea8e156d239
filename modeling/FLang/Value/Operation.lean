import FLang.Value

/-!
# Operations on values

Operators demand operands of one type: equality any basic type, sums numbers and texts, all others
numbers. Division of integers rounds toward zero. Floats follow the IEEE standard, except that
division by zero is an error for them as well.
-/

namespace FLang.Value

/-- Whether two values of one basic type are equal. Not a number differs from itself. -/
def equal? : Value → Value → Option Bool
  | int a, int b => some (a == b)
  | float a, float b => some (Float.beq a b)
  | bool a, bool b => some (a == b)
  | string a, string b => some (a == b)
  | _, _ => none

/-- Compares two numbers of one type by the relation of that type. -/
def ordered? (onInt : Int → Int → Bool) (onFloat : Float → Float → Bool) :
    Value → Value → Option Bool
  | int a, int b => some (onInt a b)
  | float a, float b => some (onFloat a b)
  | _, _ => none

/-- Computes on two numbers of one type. -/
def computed? (onInt : Int → Int → Int) (onFloat : Float → Float → Float) :
    Value → Value → Option Value
  | int a, int b => some (int (onInt a b))
  | float a, float b => some (float (onFloat a b))
  | _, _ => none

/-- The value of a relation; none if the operands do not fit it. -/
def compare? (op : Relation) (left right : Value) : Option Bool :=
  match op with
  | .equal => equal? left right
  | .notEqual => (equal? left right).map (!·)
  | .greater => ordered? (fun a b => a > b) (fun a b => a > b) left right
  | .less => ordered? (fun a b => a < b) (fun a b => a < b) left right
  | .greaterOrEqual => ordered? (fun a b => a ≥ b) (fun a b => a ≥ b) left right
  | .lessOrEqual => ordered? (fun a b => a ≤ b) (fun a b => a ≤ b) left right

/-- The error of an operator whose operands do not fit it. -/
def mismatch (op : BinaryOperator) (left right : Value) (position : Position) : Fault :=
  .semantic position (.operatorTypeMismatch op left.type right.type)

/-- Compares two values, at a position. -/
def relate (op : Relation) (left right : Value) (position : Position) : Except Fault Bool :=
  match compare? op left right with
  | some result => .ok result
  | none => .error (mismatch (.relation op) left right position)

/-- Whether a value is a number equal to zero. -/
def isZero : Value → Bool
  | int value => value == 0
  | float value => Float.beq value 0.0
  | _ => false

/-- The quotient of two integers, rounded toward zero: the quotient of their absolute values, with
its sign changed if they lie on different sides of zero. -/
def quotient (a b : Int) : Int :=
  let unsigned : Int := (a.natAbs / b.natAbs : Nat)
  if decide (a < 0) != decide (b < 0) then -unsigned else unsigned

/-- The value of an arithmetic operation, division by zero apart; none if the operands do not fit
it. -/
def compute? (op : Arithmetic) (left right : Value) : Option Value :=
  match op with
  | .sum =>
    match left, right with
    | string a, string b => some (string (a ++ b))
    | _, _ => computed? (fun a b => a + b) (fun a b => a + b) left right
  | .subtract => computed? (fun a b => a - b) (fun a b => a - b) left right
  | .multiply => computed? (fun a b => a * b) (fun a b => a * b) left right
  | .divide => computed? quotient (fun a b => a / b) left right

/-- Computes with two values, at a position. -/
def calculate (op : Arithmetic) (left right : Value) (position : Position) : Except Fault Value :=
  match compute? op left right with
  | none => .error (mismatch (.arithmetic op) left right position)
  | some result =>
    if op = .divide && right.isZero then .error (.semantic position .divisionByZero)
    else .ok result

/-- The negative of a number or the opposite of a truth value, at a position. -/
def negate (value : Value) (position : Position) : Except Fault Value :=
  match value with
  | bool b => .ok (bool !b)
  | int n => .ok (int (-n))
  | float x => .ok (float (-x))
  | _ => .error (.semantic position (.invalidNegate value.type))

end FLang.Value
