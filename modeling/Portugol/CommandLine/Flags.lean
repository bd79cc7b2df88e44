import Portugol.Fault
import Portugol.Number.Printer
import Portugol.Number.Reader

/-!
# Flags

What may follow the name of a program on the command line: inputs, limits, and
the form of the output. Without an input on the command line, programs read
standard input, and then their output is shown as it comes, so that a question
appears before its answer is read; JSON is shown only when the run is over.
-/

namespace Portugol

/-- What is wrong with the flags. -/
inductive FlagError
  | unknown (arg : String)
  /-- The ceiling is no number of seconds that loops could take. -/
  | ceiling (text : String)
  | maxDepth (text : String)
  deriving DecidableEq, Repr, Inhabited

def FlagError.message : FlagError → String
  | unknown arg => s!"opção desconhecida: {arg}"
  | ceiling text => s!"valor inválido para --timeout: '{text}'"
  | maxDepth text => s!"valor inválido para --max-depth: '{text}'"

/-- How a program is to be run from the command line. -/
structure Flags where
  /-- The inputs; if there is none, standard input is read. -/
  inputs : List String := []
  /-- Whether the report is printed as JSON. -/
  json : Bool := false
  /-- Whether output is asked to be shown as it comes. -/
  stream : Bool := false
  /-- The time that a loop may take, in nanoseconds. -/
  ceiling : Nat := 30 * second
  maxDepth : Nat := 1000
  deriving DecidableEq, Repr, Inhabited

/-- The nanoseconds nearest to a number of seconds, a half to the even number.
    There are none if the number is negative, or if 64 bits cannot hold the whole
    seconds. -/
def Number.nanoseconds? (seconds : Number) : Option Nat :=
  if seconds.isNaN || seconds.lt 0 || (Number.ofNat false (1 <<< 64)).le seconds then none
  else some (roundDiv (seconds.magnitude * second) (1 <<< oneShift))

-- The nanoseconds are `976562.5`, and a half goes to the even number.
example : (Number.ofRatio false 1 1024).nanoseconds? = some 976562 := by decide +kernel

/-- A word of 64 bits, written as digits, perhaps with a plus in front. -/
def readWord? (text : String) : Option Nat :=
  let digits := match text.toList with
    | '+' :: digits => digits
    | digits => digits
  if isDigits digits && decide (digitsValue digits < 1 <<< 64) then some (digitsValue digits)
  else none

/-- What follows `start` in a text that starts with it. -/
def after? (start text : String) : Option String :=
  if start.toList.isPrefixOf text.toList then
    some (String.ofList (text.toList.drop start.length))
  else none

namespace Flags

/-- Whether the program reads standard input. -/
def readsStandardInput (flags : Flags) : Bool := flags.inputs.isEmpty

/-- Whether output is shown as it comes. -/
def streams (flags : Flags) : Bool :=
  (flags.stream || flags.readsStandardInput) && !flags.json

/-- Reads one more flag. -/
def add (flags : Flags) (arg : String) : Except FlagError Flags :=
  if arg = "--json" then .ok { flags with json := true }
  else if arg = "--stream" then .ok { flags with stream := true }
  else if let some input := after? "--input=" arg then
    .ok { flags with inputs := flags.inputs ++ [input] }
  else if let some text := after? "--timeout=" arg then
    match Number.ofText? text with
    | none => .error (.ceiling text)
    | some seconds =>
      match seconds.nanoseconds? with
      | none => .error (.ceiling seconds.plainText)
      | some ceiling => .ok { flags with ceiling }
  else if let some text := after? "--max-depth=" arg then
    match readWord? text with
    | none => .error (.maxDepth text)
    | some maxDepth => .ok { flags with maxDepth }
  else .error (.unknown arg)

/-- Reads flags from the left, up to the first wrong one. -/
def parse (args : List String) : Except FlagError Flags := args.foldlM add {}

end Flags

end Portugol
