import Portugol.Machine.Stmt
import Portugol.Program
import Portugol.Report

/-!
# Runs

A run takes a program from its text to a report. Each run starts afresh: with no
variables, no output, and the inputs that it is given.
-/

namespace Portugol

/-- What a run is given besides the program. -/
structure RunOptions where
  inputs : Inputs := {}
  watchdog : Watchdog := {}
  /-- Whether the run is cancelled from the start. -/
  cancelled : Bool := false
  /-- Calls nest no deeper than this. -/
  maxDepth : Nat := 1000
  /-- No loop starts more rounds than this. -/
  rounds : Nat
  deriving Inhabited

namespace RunOptions

/-- The setting for a program with these callables. -/
def setting (options : RunOptions) (registry : Registry) : Setting where
  registry := registry
  watchdog := options.watchdog
  maxDepth := options.maxDepth
  rounds := options.rounds

/-- The machine before a run. -/
def machine (options : RunOptions) : Machine where
  inputs := options.inputs
  timer := { cancelled := options.cancelled }

end RunOptions

/-- How a run has ended. -/
structure Ending where
  /-- All that was printed. -/
  output : String := ""
  fault : Option Fault := none
  /-- The global variables as they are printed. -/
  globals : Dict String String := []
  deriving DecidableEq, Inhabited

namespace Ending

/-- The end of a run that leaves this machine. -/
def ofMachine (m : Machine) (fault : Option Fault) : Ending where
  output := m.output
  fault := fault
  globals := m.env.snapshot

def report (ending : Ending) : Report := .ofRun ending.output ending.fault ending.globals

end Ending

/-- Runs a program. There is no end if some loop would need more rounds than it
    may have. -/
def Program.run (program : Program) (options : RunOptions) : Option Ending :=
  match Exec.run (options.setting program.registry) program.main options.machine with
  | .ok _ m => some (.ofMachine m none)
  | .error (.fault fault) m => some (.ofMachine m (some fault))
  | .error .outOfRounds _ => none

/-- Runs the program that a text makes up; a text that makes up none is a run that
    fails at once. -/
def runSource (options : RunOptions) (source : String) : Option Ending :=
  match Program.parse source with
  | .ok program => program.run options
  | .error fault => some { fault := some fault }

/-- The report on running the program that a text makes up. -/
def interpret (options : RunOptions) (source : String) : Option Report :=
  (runSource options source).map Ending.report

end Portugol
