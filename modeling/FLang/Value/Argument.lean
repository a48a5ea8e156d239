import FLang.Value

/-!
# Arguments from the command line

A text that a user passes to the entry function stands for an integer if it reads as one, and for
itself otherwise.
-/

namespace FLang

/-- The value of a command-line argument. An integer of too many digits is a fault. -/
def Value.ofArgument (text : String) : Except Fault Value :=
  match Decimal.readInt text with
  | .notInt => .ok (.string text)
  | .tooLong digits => .error (.tooManyDigits (some digits))
  | .int value => .ok (.int value)

end FLang
