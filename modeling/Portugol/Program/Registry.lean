import Portugol.Dict
import Portugol.Fault
import Portugol.Stmt

/-!
# The registry of callables

Functions and procedures can be used before their definition, so all definitions
are taken out of the program before it runs (`hoist`), also those in the bodies
of its blocks. The statements that remain keep their order. No two callables
have the same name.
-/

namespace Portugol

/-- The callables of a program by their names. -/
abbrev Registry := Dict String Callable

/-- Adds a callable, unless its name is taken. -/
def Registry.register (registry : Registry) (callable : Callable) : Except Fault Registry :=
  match Dict.get? registry callable.name with
  | some earlier =>
    .error
      { cause := .duplicateCallable callable.name earlier.line, line := some callable.line }
  | none => .ok (Dict.insert registry callable.name callable)

/-- Builds up a registry. -/
abbrev Registering (α : Type) := StateT Registry (Except Fault) α

mutual

/-- Registers the definitions in a list of statements, in the order of the text,
    and gives the statements that remain. -/
def hoist : List Stmt → Registering (List Stmt)
  | [] => return []
  | stmt :: rest => do
    match ← hoistStmt stmt with
    | none => hoist rest
    | some kept => return kept :: (← hoist rest)

/-- Registers the definitions in a statement, and gives the statement without
    them unless it is one. -/
def hoistStmt : Stmt → Registering (Option Stmt)
  | .define line kind name params body => do
    set (← (← get).register { name, params, body, kind, line })
    return none
  | .simple line action => return some (.simple line action)
  | .ifThen line cond body => return some (.ifThen line cond (← hoist body))
  | .ifElse line cond body alternate => do
    let body ← hoist body
    let alternate ← hoist alternate
    return some (.ifElse line cond body alternate)
  | .count line var first last body => return some (.count line var first last (← hoist body))
  | .whileDo line cond body => return some (.whileDo line cond (← hoist body))
  | .times line number body => return some (.times line number (← hoist body))

end

end Portugol
