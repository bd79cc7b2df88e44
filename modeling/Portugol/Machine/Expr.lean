import Portugol.Machine
import Portugol.Value.Operators

/-!
# Evaluating expressions

Operands are evaluated from left to right. `E` and `OU` do not evaluate the
right one if the left one decides. A call looks for the callable, then at the
number of arguments, then whether calls nest too deeply, and only then evaluates
the arguments.

How a callable is run is an argument of the evaluator, `invoke`. So expressions
are evaluated by recursion on their structure alone.
-/

namespace Portugol

/-- Runs a callable on the values of its parameters, and gives its result if it
    has left one. -/
abbrev Invoker := Callable → List Value → Exec (Option Value)

namespace Exec

/-- Calls the callable with this name, given how many arguments there are and the
    step that evaluates them. Gives the kind of the callable and the result that it
    has left. -/
def call (s : Setting) (invoke : Invoker) (name : String) (given : Nat)
    (values : Exec (List Value)) : Exec (CallableKind × Option Value) :=
  match Dict.get? s.registry name with
  | none => fail (.undefinedCallable name)
  | some callable =>
    if given ≠ callable.params.length then
      fail (.wrongArgCount name callable.params.length given)
    else do
      checkDepth s.maxDepth
      return (callable.kind, ← invoke callable (← values))

/-- The value of a call: a function must have left a result, and a procedure has
    none. -/
def functionValue (name : String) (kind : CallableKind) (result : Option Value) : Exec Value :=
  match kind, result with
  | .function, some value => return value
  | .function, none => fail (.unsetResult name resultName)
  | .procedure, _ => fail (.procedureHasNoValue name)

/-- The value of a logical operator if the left operand decides it. -/
def decided? : BinaryOp → Bool → Option Bool
  | .and, false => some false
  | .or, true => some true
  | _, _ => none

/-- A logical operator on the value of its left operand and the step that
    evaluates the right one. -/
def logical (op : BinaryOp) (left : Value) (right : Exec Value) : Exec Value := do
  match decided? op (← ofExcept (left.logicalOperand op)) with
  | some b => return .logical b
  | none => return .logical (← ofExcept ((← right).logicalOperand op))

/-- A binary operator on the value of its left operand and the step that
    evaluates the right one. -/
def binary (op : BinaryOp) (left : Value) (right : Exec Value) : Exec Value :=
  match op with
  | .and | .or => logical op left right
  | _ => do ofExcept (Value.binary op left (← right))

mutual

/-- Evaluates an expression. -/
def eval (s : Setting) (invoke : Invoker) : Expr → Exec Value
  | .number n => return .number n
  | .text t => return .text t
  | .logical b => return .logical b
  | .var name => lookup name
  | .element name index => do
    let key ← ofExcept (← eval s invoke index).toKey
    lookupElement name key
  | .binary op left right => do
    binary op (← eval s invoke left) (eval s invoke right)
  | .unary op operand => do
    ofExcept (Value.unary op (← eval s invoke operand))
  | .call name args => do
    let (kind, result) ← call s invoke name args.length (evalAll s invoke args)
    functionValue name kind result

/-- Evaluates expressions from left to right. -/
def evalAll (s : Setting) (invoke : Invoker) : List Expr → Exec (List Value)
  | [] => return []
  | first :: rest => do
    let value ← eval s invoke first
    return value :: (← evalAll s invoke rest)

end

/-- Evaluates a condition, which messages call `context`. -/
def evalCondition (s : Setting) (invoke : Invoker) (context : String) (cond : Expr) :
    Exec Bool := do
  match ← eval s invoke cond with
  | .logical b => return b
  | other => fail (.expectedType context "lógico" other.typeName)

/-- Evaluates a number, which messages call `context`. -/
def evalNumber (s : Setting) (invoke : Invoker) (context : String) (number : Expr) :
    Exec Number := do
  match ← eval s invoke number with
  | .number n => return n
  | other => fail (.expectedType context "número" other.typeName)

end Exec

end Portugol
