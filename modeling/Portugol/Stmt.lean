import Portugol.Expr

/-!
# Statements

A statement stands on one line (`Simple`), or it is a block: a header, a body,
and an end. Each knows the line it starts on. Definitions of functions and
procedures are statements until they are gathered in a registry.
-/

namespace Portugol

/-- The variable in which a function leaves its result. -/
def resultName : String := "resultado"

/-- The statements that stand on one line. -/
inductive Simple
  | print (args : List Expr)
  | printLine (args : List Expr)
  | read (targets : List Target)
  | assign (name : String) (value : Expr)
  | assignElement (name : String) (index value : Expr)
  | call (name : String) (args : List Expr)
  | ret (value : Option Expr)
  deriving Inhabited

/-- Whether a callable gives a value. -/
inductive CallableKind
  | function
  | procedure
  deriving DecidableEq, Repr, Inhabited

/-- The keyword of the definition. -/
def CallableKind.spelling : CallableKind → String
  | function => "FUNÇÃO"
  | procedure => "PROCEDIMENTO"

/-- A statement and the line it starts on. -/
inductive Stmt
  | simple (line : Nat) (action : Simple)
  | ifThen (line : Nat) (cond : Expr) (body : List Stmt)
  | ifElse (line : Nat) (cond : Expr) (body alternate : List Stmt)
  /-- The counting loop: the body for each number from `first` to `last`. -/
  | count (line : Nat) (var : String) (first last : Expr) (body : List Stmt)
  | whileDo (line : Nat) (cond : Expr) (body : List Stmt)
  | times (line : Nat) (number : Expr) (body : List Stmt)
  | define (line : Nat) (kind : CallableKind) (name : String) (params : List String)
      (body : List Stmt)
  deriving Inhabited

/-- The line a statement starts on. -/
def Stmt.line : Stmt → Nat
  | simple line _ | ifThen line _ _ | ifElse line _ _ _ | count line _ _ _ _ | whileDo line _ _
  | times line _ _ | define line _ _ _ _ => line

/-- A function or procedure. -/
structure Callable where
  name : String
  params : List String
  body : List Stmt
  kind : CallableKind
  /-- The line its definition starts on. -/
  line : Nat
  deriving Inhabited

end Portugol
