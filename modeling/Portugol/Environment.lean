import Portugol.Value

/-!
# Environments

The variables of a run. The global ones live as long as the run; each call has a
frame of its own in front. From a call, the innermost frame and the globals are
visible, and never the frame of the caller.
-/

namespace Portugol

/-- Variables and their values. -/
abbrev Scope := Dict String Value

/-- The variables of a run. -/
structure Environment where
  globals : Scope := []
  /-- The frames of the calls that are going on, the innermost first. -/
  frames : List Scope := []
  deriving Inhabited

namespace Environment

/-- Starts a call. -/
def push (env : Environment) : Environment := { env with frames := [] :: env.frames }

/-- Ends the innermost call, if there is one. -/
def pop (env : Environment) : Environment := { env with frames := env.frames.tail }

/-- Whether a call is going on. -/
def inCall (env : Environment) : Bool := !env.frames.isEmpty

/-- The frame of the innermost call, or the globals outside all calls. -/
def innermost (env : Environment) : Scope := env.frames.head?.getD env.globals

/-- Changes the innermost scope. -/
def modifyInnermost (env : Environment) (f : Scope → Scope) : Environment :=
  match env.frames with
  | [] => { env with globals := f env.globals }
  | frame :: rest => { env with frames := f frame :: rest }

/-- The value of a variable in the innermost scope. -/
def getLocal? (env : Environment) (name : String) : Option Value := Dict.get? env.innermost name

/-- The value of a visible variable. -/
def get? (env : Environment) (name : String) : Option Value :=
  env.getLocal? name <|> Dict.get? env.globals name

/-- The value of a visible variable, which must exist. -/
def lookup (env : Environment) (name : String) : Except Fault Value :=
  match env.get? name with
  | some value => .ok value
  | none => .error { cause := .undefinedVariable name }

/-- Gives a variable of the innermost scope a value. -/
def define (env : Environment) (name : String) (value : Value) : Environment :=
  env.modifyInnermost (Dict.insert · name value)

/-- Gives a variable a value where it is visible, or else in the innermost
    scope. -/
def assign (env : Environment) (name : String) (value : Value) : Environment :=
  if (env.getLocal? name).isNone && Dict.contains env.globals name then
    { env with globals := Dict.insert env.globals name value }
  else env.define name value

/-- Takes a variable out of the innermost scope. -/
def take (env : Environment) (name : String) : Option Value × Environment :=
  (env.getLocal? name, env.modifyInnermost (Dict.erase · name))

/-- The global variables as they are printed, by their names. -/
def snapshot (env : Environment) : List (String × String) :=
  env.globals.map fun (name, value) => (name, value.display)

end Environment

end Portugol
