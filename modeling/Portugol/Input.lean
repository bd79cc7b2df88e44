import Portugol.Number.Numeral
import Portugol.Text.Blank
import Portugol.Value

/-!
# Inputs

The texts that a program reads, one after the other. A text that is a numeral,
perhaps with a minus sign and with blanks around it, is read as a number; any
other one is read as it is.
-/

namespace Portugol

/-- What a program can read. -/
structure Inputs where
  /-- The texts that have not been read yet. -/
  queue : List String := []
  /-- Why nothing can be read behind them, if not because there is no more. -/
  failure : Option String := none
  deriving DecidableEq, Inhabited

namespace Inputs

/-- The next text for the variable that messages call `target`. -/
def next (inputs : Inputs) (target : String) : Except Fault (String × Inputs) :=
  match inputs.queue with
  | text :: rest => .ok (text, { inputs with queue := rest })
  | [] =>
    match inputs.failure with
    | some reason => .error { cause := .inputFailed reason }
    | none => .error { cause := .inputExhausted target }

end Inputs

/-- The number that a text is read as. -/
def readNumber? (cs : List Char) : Option Number :=
  match cs with
  | '-' :: digits => if Numeral.isNumeral digits then some (-Numeral.value digits) else none
  | digits => if Numeral.isNumeral digits then some (Numeral.value digits) else none

/-- The value that a text is read as. -/
def Value.ofInput (text : String) : Value :=
  match readNumber? (trim text.toList) with
  | some n => .number n
  | none => .text text

end Portugol
