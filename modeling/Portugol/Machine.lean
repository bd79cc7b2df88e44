import Portugol.Environment
import Portugol.Input
import Portugol.Program.Registry
import Portugol.Watchdog

/-!
# The machine

What a run changes, and the steps that change it. A step gives a value or stops
the run; either way it leaves a machine behind, so that what was printed before
a fault is kept.

The loops of a program need not end by themselves. Each may start at most
`Setting.rounds` rounds; a run that needs more stops with `Stop.outOfRounds`,
which no program can cause by a fault.
-/

namespace Portugol

/-- Why a run stops before its end. -/
inductive Stop
  | fault (fault : Fault)
  /-- A loop would need more rounds than it may have. -/
  | outOfRounds
  deriving DecidableEq, Repr, Inhabited

/-- What a run depends on and does not change. -/
structure Setting where
  registry : Registry := []
  watchdog : Watchdog := {}
  /-- Calls nest no deeper than this. -/
  maxDepth : Nat := 1000
  /-- No loop starts more rounds than this. -/
  rounds : Nat
  deriving Inhabited

/-- What a run changes. -/
structure Machine where
  env : Environment := {}
  /-- How many calls are going on. -/
  depth : Nat := 0
  /-- All that has been printed. -/
  output : String := ""
  inputs : Inputs := {}
  timer : Timer := {}
  deriving Inhabited

namespace Machine

/-- Starts a call. -/
def enter (m : Machine) : Machine := { m with env := m.env.push, depth := m.depth + 1 }

/-- Ends the innermost call. -/
def leave (m : Machine) : Machine := { m with env := m.env.pop, depth := m.depth - 1 }

end Machine

/-- A step of a run. -/
abbrev Exec (α : Type) := EStateM Stop Machine α

namespace Exec

/-- The value, or the fault that stops the run. -/
def ofExcept {α : Type} : Except Fault α → Exec α
  | .ok a => pure a
  | .error fault => throw (.fault fault)

/-- Stops the run for this cause. -/
def fail {α : Type} (cause : Cause) : Exec α := throw (.fault { cause })

/-- Blames a fault of the step on this line, unless it is blamed on one already. -/
def located {α : Type} (line : Nat) (step : Exec α) : Exec α := fun m =>
  match step m with
  | .error (.fault fault) m => .error (.fault (fault.orLine line)) m
  | result => result

/-- Does the step in a frame of its own, which it leaves in any case. -/
def inFrame {α : Type} (step : Exec α) : Exec α := fun m =>
  match step m.enter with
  | .ok a m => .ok a m.leave
  | .error stop m => .error stop m.leave

/-- Fails if calls nest too deeply for another one. -/
def checkDepth (maxDepth : Nat) : Exec Unit := do
  if maxDepth ≤ (← get).depth then fail (.callDepthExceeded maxDepth)

/-! ## Output and input -/

def print (text : String) : Exec Unit :=
  modify fun m => { m with output := m.output ++ text }

/-- The next input for a target. -/
def nextInput (target : String) : Exec String := do
  let m ← get
  let (text, inputs) ← ofExcept (m.inputs.next target)
  set { m with inputs }
  return text

/-! ## Time -/

/-- Reads the clock at the start of a loop. -/
def startLoop (s : Setting) : Exec Nat := do
  let m ← get
  let (now, timer) := s.watchdog.read m.timer
  set { m with timer }
  return now

/-- Fails unless a loop that started at the time `started` may have another
    round. -/
def checkLoop (s : Setting) (started : Nat) : Exec Unit := do
  let m ← get
  let (verdict, timer) := s.watchdog.check started m.timer
  set { m with timer }
  ofExcept verdict

/-! ## Variables -/

/-- The value of a visible variable. -/
def lookup (name : String) : Exec Value := do
  ofExcept ((← get).env.lookup name)

/-- The element of an array under a key. -/
def lookupElement (name : String) (key : ArrayKey) : Exec Value := do
  match ← lookup name with
  | .array elements =>
    match Dict.get? elements key with
    | some value => return value
    | none => fail (.undefinedElement name key.display)
  | other => fail (.notAnArray name other.typeName)

/-- Whether a name means the result of the call that is going on. -/
def isResult (name : String) : Exec Bool := do
  return name == resultName && (← get).env.inCall

/-- Gives a variable a value. The result of a call belongs to the call. -/
def assign (name : String) (value : Value) : Exec Unit := do
  if ← isResult name then modify fun m => { m with env := m.env.define name value }
  else modify fun m => { m with env := m.env.assign name value }

/-- The value that an assignment would replace. -/
def assigned? (name : String) : Exec (Option Value) := do
  let env := (← get).env
  return if ← isResult name then env.getLocal? name else env.get? name

/-- Gives an element of an array a value; the first one makes the array. -/
def assignElement (name : String) (key : ArrayKey) (value : Value) : Exec Unit := do
  match ← assigned? name with
  | some (.array elements) => assign name (.array (Dict.insert elements key value))
  | some other => fail (.notAnArray name other.typeName)
  | none => assign name (.array [(key, value)])

/-- Makes a value the result of the call that is going on. -/
def leaveResult (value : Value) : Exec Unit :=
  modify fun m => { m with env := m.env.define resultName value }

/-- The result of the call that is going on, which has it no longer. -/
def takeResult : Exec (Option Value) :=
  modifyGet fun m =>
    let (result, env) := m.env.take resultName
    (result, { m with env })

/-- Gives the parameters of a call their values. -/
def bindParams (params : List String) (values : List Value) : Exec Unit :=
  modify fun m =>
    { m with
      env := (params.zip values).foldl (fun env (name, value) => env.define name value) m.env }

end Exec

end Portugol
