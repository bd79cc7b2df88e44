import Portugol.Machine.Expr

/-!
# Running statements

Statements are run by recursion on their structure, loops by recursion on the
rounds that they may still start, and calls by recursion on how much deeper they
may nest (`invoker`). A fault is blamed on the innermost statement that was
running.
-/

namespace Portugol

/-- How a statement ends. -/
inductive Flow
  /-- The next statement follows. -/
  | next
  /-- `RETORNE` leaves the callable. -/
  | returned
  deriving DecidableEq, Repr, Inhabited

namespace Exec

/-! ## Loops -/

/-- Does `round` and then `more`, unless it leaves the callable. -/
@[inline] def andThen (round more : Exec Flow) : Exec Flow := do
  match ← round with
  | .returned => return .returned
  | .next => more

/-- The start of a round: `again` if there is one to come, and else the end of
    the loop. -/
@[inline] def whenever (comes : Bool) (again : Exec Flow) : Exec Flow :=
  if comes then again else return .next

/-- What tells one loop from another: how it gets from one round to the next, by
    positions. -/
structure Loop (σ : Type) where
  /-- Whether a round may come at a position. -/
  comes : σ → Bool
  /-- What is done first in a round, after a look at the clock: whether its body
      follows. -/
  enter : σ → Exec Bool
  /-- The position behind another one. -/
  next : σ → σ

namespace Loop

variable {σ : Type}

/-- The round of a loop at a position, with a body and the rounds behind it as
    `rest`. -/
def round (loop : Loop σ) (s : Setting) (started : Nat) (position : σ) (rest : Exec Flow) :
    Exec Flow :=
  whenever (loop.comes position) do
    checkLoop s started
    whenever (← loop.enter position) rest

/-- A loop that started at the time `started`, from a position on. -/
def rounds (loop : Loop σ) (s : Setting) (started : Nat) (body : Exec Flow) :
    (left : Nat) → (position : σ) → Exec Flow
  | 0, position => loop.round s started position (throw .outOfRounds)
  | left + 1, position =>
    loop.round s started position
      (andThen body (loop.rounds s started body left (loop.next position)))

/-- A loop with this body, from its first position on. -/
def run (loop : Loop σ) (s : Setting) (body : Exec Flow) (first : σ) : Exec Flow := do
  loop.rounds s (← startLoop s) body s.rounds first

end Loop

/-- The body as long as the condition holds. The condition is evaluated after the
    clock is looked at. -/
def whileLoop (cond : Exec Bool) : Loop Unit where
  comes _ := true
  enter _ := cond
  next _ := ()

/-- The body as long as at least one round remains; each takes one away. -/
def timesLoop : Loop Number where
  comes remaining := Number.le 1 remaining
  enter _ := return true
  next remaining := remaining - 1

/-- Which way a counting loop goes. -/
inductive Direction
  | up
  | down
  deriving DecidableEq, Repr, Inhabited

namespace Direction

/-- The direction from one number to another; down if they do not compare. -/
def between (first last : Number) : Direction := if first.le last then up else down

/-- The number behind another one. -/
def next (d : Direction) (n : Number) : Number :=
  match d with
  | up => n + 1
  | down => n + -1

/-- Whether a number has not passed the last one. -/
def within (d : Direction) (last n : Number) : Bool :=
  match d with
  | up => n.le last
  | down => last.le n

end Direction

/-- The body for each number up to `last`. The variable has the number when a round
    starts; what the body makes of it does not matter. -/
def countLoop (var : String) (direction : Direction) (last : Number) : Loop Number where
  comes := direction.within last
  enter counter := do
    assign var (.number counter)
    return true
  next := direction.next

/-! ## Statements -/

/-- Reads an input for each target. An index is evaluated after its input is
    taken. -/
def readTargets (s : Setting) (invoke : Invoker) : List Target → Exec Unit
  | [] => return
  | target :: rest => do
    let value := Value.ofInput (← nextInput target.describe)
    match target with
    | .var name => assign name value
    | .element name index =>
      let key ← ofExcept (← eval s invoke index).toKey
      assignElement name key value
    readTargets s invoke rest

/-- Runs a statement that stands on one line. -/
def execSimple (s : Setting) (invoke : Invoker) : Simple → Exec Flow
  | .print args => do
    let values ← evalAll s invoke args
    print (String.join (values.map Value.display))
    return .next
  | .printLine args => do
    let values ← evalAll s invoke args
    print (String.join (values.map Value.display) ++ "\n")
    return .next
  | .read targets => do
    readTargets s invoke targets
    return .next
  | .assign name value => do
    assign name (← eval s invoke value)
    return .next
  | .assignElement name index value => do
    let key ← ofExcept (← eval s invoke index).toKey
    assignElement name key (← eval s invoke value)
    return .next
  | .call name args => do
    let _ ← call s invoke name args.length (evalAll s invoke args)
    return .next
  | .ret none => return .returned
  | .ret (some value) => do
    leaveResult (← eval s invoke value)
    return .returned

mutual

/-- Runs a statement. -/
def execStmt (s : Setting) (invoke : Invoker) : Stmt → Exec Flow
  | .simple _ action => execSimple s invoke action
  | .ifThen _ cond body => do
    if ← evalCondition s invoke "a condição do SE" cond then execBody s invoke body
    else return .next
  | .ifElse _ cond body alternate => do
    if ← evalCondition s invoke "a condição do SE" cond then execBody s invoke body
    else execBody s invoke alternate
  | .count _ var first last body => do
    let first ← evalNumber s invoke "o início do PARA" first
    let last ← evalNumber s invoke "o fim do PARA" last
    (countLoop var (.between first last) last).run s (execBody s invoke body) first
  | .whileDo _ cond body =>
    (whileLoop (evalCondition s invoke "a condição do ENQUANTO" cond)).run s
      (execBody s invoke body) ()
  | .times _ number body => do
    let number ← evalNumber s invoke "a quantidade do REPITA" number
    timesLoop.run s (execBody s invoke body) number.trunc
  | .define .. => return .next

/-- Runs statements in order, until one of them leaves the callable. -/
def execBody (s : Setting) (invoke : Invoker) : List Stmt → Exec Flow
  | [] => return .next
  | stmt :: rest =>
    andThen (located stmt.line (execStmt s invoke stmt)) (execBody s invoke rest)

end

/-! ## Calls -/

/-- Does the body of a callable in a frame of its own, with values for its
    parameters. -/
def activation (params : List String) (values : List Value) (body : Exec Flow) :
    Exec (Option Value) :=
  inFrame do
    bindParams params values
    let _ ← body
    takeResult

/-- How callables are run if calls can nest `room` levels deeper. Without room,
    `call` comes to its fault before. -/
def invoker (s : Setting) : (room : Nat) → Invoker
  | 0 => fun _ _ => fail (.callDepthExceeded s.maxDepth)
  | room + 1 => fun callable values =>
    activation callable.params values (execBody s (invoker s room) callable.body)

/-- How callables are run from here, given the calls that are going on. -/
def invokerHere (s : Setting) : Exec Invoker := do
  return invoker s (s.maxDepth - (← get).depth)

/-- Evaluates an expression from here. -/
def evaluate (s : Setting) (expr : Expr) : Exec Value := do
  eval s (← invokerHere s) expr

/-- Runs statements from here. -/
def run (s : Setting) (main : List Stmt) : Exec Unit := do
  let _ ← execBody s (← invokerHere s) main

end Exec

end Portugol
