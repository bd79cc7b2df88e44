import Portugol.Number

/-!
# Expressions
-/

namespace Portugol

/-- The operators between two operands. -/
inductive BinaryOp
  | add | sub | mul | div | mod | floorDiv
  | eq | notEq | lt | ltEq | gt | gtEq
  | and | or
  deriving DecidableEq, Repr, Inhabited

namespace BinaryOp

/-- The operator as programs and messages write it. -/
def spelling : BinaryOp → String
  | add => "+"
  | sub => "-"
  | mul => "*"
  | div => "/"
  | mod => "MOD"
  | floorDiv => "DIV"
  | eq => "="
  | notEq => "<>"
  | lt => "<"
  | ltEq => "<="
  | gt => ">"
  | gtEq => ">="
  | and => "E"
  | or => "OU"

def all : List BinaryOp :=
  [add, sub, mul, div, mod, floorDiv, eq, notEq, lt, ltEq, gt, gtEq, and, or]

end BinaryOp

/-- The operators before an operand. -/
inductive UnaryOp
  | not | neg | plus
  deriving DecidableEq, Repr, Inhabited

namespace UnaryOp

def spelling : UnaryOp → String
  | not => "NÃO"
  | neg => "-"
  | plus => "+"

def all : List UnaryOp := [not, neg, plus]

end UnaryOp

/-- An expression. -/
inductive Expr
  | number (n : Number)
  | text (s : String)
  | logical (b : Bool)
  | var (name : String)
  /-- `name[index]` -/
  | element (name : String) (index : Expr)
  | binary (op : BinaryOp) (left right : Expr)
  | unary (op : UnaryOp) (operand : Expr)
  /-- `name(args)` -/
  | call (name : String) (args : List Expr)
  deriving Inhabited

/-- What can be written to: a variable or an element of an array. -/
inductive Target
  | var (name : String)
  | element (name : String) (index : Expr)
  deriving Inhabited

namespace Target

/-- The variable that is written. -/
def name : Target → String
  | var name | element name _ => name

/-- The target as messages call it. -/
def describe : Target → String
  | var name => name
  | element name _ => s!"{name}[...]"

end Target

end Portugol
