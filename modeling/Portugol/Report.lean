import Portugol.Dict
import Portugol.Fault
import Portugol.Json

/-!
# Reports

What is handed back when a run is over: what it printed, what went wrong, and the
global variables as they are printed. A report can be written as JSON.
-/

namespace Portugol

/-- A fault in words, for whoever started the run. -/
structure Failure where
  kind : String
  message : String
  line : Option Nat := none
  deriving DecidableEq, Repr, Inhabited

namespace Failure

def ofFault (fault : Fault) : Failure := ⟨fault.kind.label, fault.message, fault.line⟩

/-- The failure as it is shown to the user. -/
def display (failure : Failure) : String :=
  let place := match failure.line with
    | some line => s!" (linha {line})"
    | none => ""
  s!"Erro de Execução{place}: {failure.kind}: {failure.message}"

/-- The failure as JSON; an unknown line is left out. -/
def toJson (failure : Failure) : String :=
  Json.writeObject
    ([("kind", Json.quote failure.kind), ("message", Json.quote failure.message)] ++
      (failure.line.map fun line => ("line", toString line)).toList)

end Failure

/-- A text without the line ends behind it. -/
def trimBreaks (text : List Char) : List Char :=
  (text.reverse.dropWhile fun c => c == '\n' || c == '\r').reverse

/-- What is known when a run is over. -/
structure Report where
  /-- What was printed, without the line ends behind it. -/
  output : String
  failure : Option Failure := none
  /-- The global variables as they are printed. -/
  globals : Dict String String := []
  deriving DecidableEq, Repr, Inhabited

namespace Report

/-- The report on a run that has printed `output`. -/
def ofRun (output : String) (fault : Option Fault) (globals : Dict String String) : Report where
  output := String.ofList (trimBreaks output.toList)
  failure := fault.map Failure.ofFault
  globals := globals

def isSuccess (report : Report) : Bool := report.failure.isNone

/-- The report as JSON; what did not go wrong is left out. -/
def toJson (report : Report) : String :=
  Json.writeObject
    ([("output", Json.quote report.output)] ++
      (report.failure.map fun failure => ("error", failure.toJson)).toList ++
      [("variables",
        Json.writeObject (report.globals.map fun (name, value) => (name, Json.quote value)))])

end Report

end Portugol
