import Portugol.Expr
import Portugol.Value

/-!
# Operators on values

Arithmetic and comparison are for numbers. `+` also joins a text with any value,
which it writes as it would be printed. Division by zero is a fault. The
operands of `E` and `OU` are truth values, and both are looked at here: an
expression may not need the second one.
-/

namespace Portugol

namespace Value

/-- The operands as numbers. -/
def numbers (left : Value) (op : BinaryOp) (right : Value) : Except Fault (Number × Number) :=
  match left, right with
  | number a, number b => .ok (a, b)
  | _, _ => .error { cause := .binaryMismatch op.spelling left.typeName right.typeName }

/-- The operand of `E` or `OU`, which is a truth value. -/
def logicalOperand (op : BinaryOp) (value : Value) : Except Fault Bool :=
  match value with
  | logical b => .ok b
  | _ =>
    .error
      { cause := .expectedType ("o operando de " ++ op.spelling) "lógico" value.typeName }

/-- The sum of two numbers, or a text joined with a value. -/
def add : Value → Value → Except Fault Value
  | number a, number b => .ok (number (a + b))
  | text a, right => .ok (text (a ++ right.display))
  | left, text b => .ok (text (left.display ++ b))
  | left, right =>
    .error { cause := .binaryMismatch BinaryOp.add.spelling left.typeName right.typeName }

/-- An operation on numbers. -/
def arithmetic (op : BinaryOp) (f : Number → Number → Number) (left right : Value) :
    Except Fault Value := do
  let (a, b) ← numbers left op right
  return number (f a b)

/-- An operation on numbers whose second operand must not be zero. -/
def division (op : BinaryOp) (byZero : Cause) (f : Number → Number → Number)
    (left right : Value) : Except Fault Value := do
  let (a, b) ← numbers left op right
  if b.isZero then throw { cause := byZero }
  return number (f a b)

/-- A comparison of numbers. -/
def comparison (op : BinaryOp) (f : Number → Number → Bool) (left right : Value) :
    Except Fault Value := do
  let (a, b) ← numbers left op right
  return logical (f a b)

/-- An operation on truth values. -/
def connective (op : BinaryOp) (f : Bool → Bool → Bool) (left right : Value) :
    Except Fault Value := do
  let a ← logicalOperand op left
  let b ← logicalOperand op right
  return logical (f a b)

/-- The value of a binary operator on its operands. -/
def binary (op : BinaryOp) (left right : Value) : Except Fault Value :=
  match op with
  | .add => add left right
  | .sub => arithmetic op (· - ·) left right
  | .mul => arithmetic op (· * ·) left right
  | .div => division op .divisionByZero (· / ·) left right
  | .mod => division op .moduloByZero Number.rem left right
  | .floorDiv => division op .divisionByZero (fun a b => (a / b).floor) left right
  | .eq => .ok (logical (left.eq right))
  | .notEq => .ok (logical (!left.eq right))
  | .lt => comparison op Number.lt left right
  | .ltEq => comparison op Number.le left right
  | .gt => comparison op (fun a b => b.lt a) left right
  | .gtEq => comparison op (fun a b => b.le a) left right
  | .and => connective op (· && ·) left right
  | .or => connective op (· || ·) left right

/-- The value of a prefix operator on its operand. -/
def unary : UnaryOp → Value → Except Fault Value
  | .not, logical b => .ok (logical !b)
  | .neg, number n => .ok (number (-n))
  | .plus, number n => .ok (number n)
  | op, operand => .error { cause := .unaryMismatch op.spelling operand.typeName }

end Value

end Portugol
