import Portugol.Json.Reader
import Portugol.Run

/-!
# The playground

A page hands over a program and its inputs, both as texts, and gets a text back.
-/

namespace Portugol

namespace Playground

/-- The inputs that a page hands over: a JSON list of texts, and none if it is
    anything else. -/
def inputs (json : String) : List String := ((Json.parse? json).bind Json.strings?).getD []

/-- The report on a program as JSON, with loops limited to `rounds` rounds. -/
def run (clock : Nat → Nat) (rounds : Nat) (source inputsJson : String) : Option String :=
  (interpret { inputs := { queue := inputs inputsJson }, watchdog := { clock }, rounds } source).map
    Report.toJson

end Playground

end Portugol
