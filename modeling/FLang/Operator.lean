/-!
# Binary operators

The binary operators fall into three families: the logical ones, which decide whether their right
operand is evaluated at all, the relations, which also head the cases of a switch, and arithmetic.
-/

namespace FLang

/-- Operators on truth values. -/
inductive Logical where
  | or
  | and
deriving DecidableEq, Repr

/-- Operators that compare two values of one type. -/
inductive Relation where
  | equal
  | notEqual
  | greater
  | less
  | greaterOrEqual
  | lessOrEqual
deriving DecidableEq, Repr

/-- Operators that compute a value of the type of their operands. -/
inductive Arithmetic where
  | sum
  | subtract
  | multiply
  | divide
deriving DecidableEq, Repr

/-- Any binary operator. -/
inductive BinaryOperator where
  | logical (op : Logical)
  | relation (op : Relation)
  | arithmetic (op : Arithmetic)
deriving DecidableEq, Repr

/-- A logical operator as a program writes it. -/
def Logical.symbol : Logical → String
  | .or => "or"
  | .and => "and"

/-- A relation as a program writes it. -/
def Relation.symbol : Relation → String
  | .equal => "=="
  | .notEqual => "!="
  | .greater => ">"
  | .less => "<"
  | .greaterOrEqual => ">="
  | .lessOrEqual => "<="

/-- An arithmetic operator as a program writes it. -/
def Arithmetic.symbol : Arithmetic → String
  | .sum => "+"
  | .subtract => "-"
  | .multiply => "*"
  | .divide => "/"

/-- A binary operator as a program writes it. -/
def BinaryOperator.symbol : BinaryOperator → String
  | .logical op => op.symbol
  | .relation op => op.symbol
  | .arithmetic op => op.symbol

end FLang
