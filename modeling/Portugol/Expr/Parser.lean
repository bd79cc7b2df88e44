import Portugol.Expr
import Portugol.Fault
import Portugol.Token

/-!
# Reading expressions

A line is read from left to right by a `LineParser`, which knows the tokens that
are left and how many operators it has passed. Operators bind in layers, each
one tighter than the one before and grouping to the left:

    OU   E   = <>   < <= > >=   + -   * / MOD DIV   NÃO - + (prefix)

Two limits keep the trees small. An expression, and each parenthesis, index,
argument and prefix operator in it, takes a level of `maxNesting`: the parsers
have the levels that are left as an argument, `room`, and recurse on it. And a
line has at most `maxOperators` operators: a chain of operators at one layer is
read by recursion on how many more there can be.
-/

namespace Portugol

/-- How far a line has been read. -/
structure Cursor where
  /-- The number of the line. -/
  line : Nat
  /-- The tokens that are left. -/
  tokens : List Token
  /-- The operators that have been passed. -/
  operators : Nat := 0
  deriving Inhabited

/-- Reads a part of a line. -/
abbrev LineParser (α : Type) := StateT Cursor (Except Fault) α

namespace LineParser

/-- Expressions nest no deeper than this. -/
def maxNesting : Nat := 256

/-- A line has no more operators than this. -/
def maxOperators : Nat := 1024

/-- Stops with a fault on the line that is read. -/
def fail {α : Type} (cause : Cause) : LineParser α := do
  throw { cause, line := some (← get).line }

/-- The next token, without passing it. -/
def peek : LineParser (Option TokenKind) := do
  return (← get).tokens.head?.map Token.kind

/-- Passes the next token. -/
def advance : LineParser Unit :=
  modify fun cursor => { cursor with tokens := cursor.tokens.tail }

/-- Stops because something else was expected. -/
def unexpected {α : Type} (expected : String) : LineParser α := do
  match (← get).tokens with
  | [] => fail (.unexpectedEnd expected)
  | token :: _ => fail (.unexpectedToken token.kind.describe expected token.span.column)

/-- Passes the next token if it is this one, and says whether it was. -/
def eat (kind : TokenKind) : LineParser Bool := do
  if (← peek) = some kind then
    advance
    return true
  else return false

/-- Passes the next token, which must be this one. -/
def expect (kind : TokenKind) : LineParser Unit := do
  unless ← eat kind do unexpected kind.describe

/-- Passes a name, which messages call `expected`. -/
def expectName (expected : String) : LineParser String := do
  match ← peek with
  | some (.name name) =>
    advance
    return name
  | _ => unexpected expected

/-- Fails if a token is left. -/
def expectEnd : LineParser Unit := do
  match (← get).tokens with
  | [] => return
  | token :: _ => fail (.trailingToken token.kind.describe token.span.column)

/-- Passes an operator and counts it. -/
def takeOperator : LineParser Unit := do
  advance
  modify fun cursor => { cursor with operators := cursor.operators + 1 }
  if maxOperators < (← get).operators then fail (.tooManyOperators maxOperators)

/-! ## Operators -/

def orOp? : TokenKind → Option BinaryOp
  | .keyword .ou => some .or
  | _ => none

def andOp? : TokenKind → Option BinaryOp
  | .keyword .e => some .and
  | _ => none

def equalityOp? : TokenKind → Option BinaryOp
  | .symbol .equal => some .eq
  | .symbol .notEqual => some .notEq
  | _ => none

def relationalOp? : TokenKind → Option BinaryOp
  | .symbol .less => some .lt
  | .symbol .lessEqual => some .ltEq
  | .symbol .greater => some .gt
  | .symbol .greaterEqual => some .gtEq
  | _ => none

def additiveOp? : TokenKind → Option BinaryOp
  | .symbol .plus => some .add
  | .symbol .minus => some .sub
  | _ => none

def multiplicativeOp? : TokenKind → Option BinaryOp
  | .symbol .times => some .mul
  | .symbol .slash => some .div
  | .keyword .mod => some .mod
  | .keyword .div => some .floorDiv
  | _ => none

def prefixOp? : TokenKind → Option UnaryOp
  | .keyword .nao => some .not
  | .symbol .minus => some .neg
  | .symbol .plus => some .plus
  | _ => none

/-- The layers of binary operators, from the loosest to the tightest. -/
def layers : List (TokenKind → Option BinaryOp) :=
  [orOp?, andOp?, equalityOp?, relationalOp?, additiveOp?, multiplicativeOp?]

/-- Reads further operators of one layer and their right operands, at most `more`
    of them. A line that has had all its operators takes no further one. -/
def chain (op? : TokenKind → Option BinaryOp) (operand : LineParser Expr) :
    (more : Nat) → (left : Expr) → LineParser Expr
  | 0, left => do
    match (← peek).bind op? with
    | none => return left
    | some _ =>
      takeOperator
      fail (.tooManyOperators maxOperators)
  | more + 1, left => do
    match (← peek).bind op? with
    | none => return left
    | some op =>
      takeOperator
      let right ← operand
      chain op? operand more (.binary op left right)

/-- Reads operands of the tightest layer and the operators of the given layers
    between them. -/
def layered (operand : LineParser Expr) : List (TokenKind → Option BinaryOp) → LineParser Expr
  | [] => operand
  | op? :: tighter => do
    let left ← layered operand tighter
    chain op? (layered operand tighter) maxOperators left

/-- A prefix operator on its operand: a minus before a number belongs to it. -/
def applyPrefix : UnaryOp → Expr → Expr
  | .neg, .number n => .number (-n)
  | op, operand => .unary op operand

/-! ## Expressions -/

/-- Reads the arguments of a call behind its opening parenthesis: one or more,
    and no more than there are tokens. Without tokens, the first one fails. -/
def arguments (expr : LineParser Expr) : (tokens : Nat) → LineParser (List Expr)
  | 0 => return [← expr]
  | tokens + 1 => do
    let first ← expr
    if ← eat (.symbol .comma) then
      return first :: (← arguments expr tokens)
    else
      expect (.symbol .closeParen)
      return [first]

/-- Reads `(args)`. -/
def callArgs (expr : LineParser Expr) : LineParser (List Expr) := do
  expect (.symbol .openParen)
  if ← eat (.symbol .closeParen) then return []
  else arguments expr (← get).tokens.length

/-- Reads what can follow a name: arguments, an index, or nothing. -/
def nameSuffix (expr : LineParser Expr) (name : String) : LineParser Expr := do
  match ← peek with
  | some (.symbol .openParen) => return .call name (← callArgs expr)
  | some (.symbol .openBracket) =>
    advance
    let index ← expr
    expect (.symbol .closeBracket)
    return .element name index
  | _ => return .var name

/-- Reads an operand without operators, given how to read an expression in it. -/
def primary (expr : LineParser Expr) : LineParser Expr := do
  match ← peek with
  | some (.number n) =>
    advance
    return .number n
  | some (.text s) =>
    advance
    return .text s
  | some (.keyword .verdadeiro) =>
    advance
    return .logical true
  | some (.keyword .falso) =>
    advance
    return .logical false
  | some (.name name) =>
    advance
    nameSuffix expr name
  | some (.symbol .openParen) =>
    advance
    let inner ← expr
    expect (.symbol .closeParen)
    return inner
  | _ => unexpected "uma expressão"

/-- Reads an operand with its prefix operators, given how to read an expression
    and an operand one level deeper. -/
def operand (expr deeper : LineParser Expr) : LineParser Expr := do
  match (← peek).bind prefixOp? with
  | none => primary expr
  | some op =>
    takeOperator
    return applyPrefix op (← deeper)

mutual

/-- Reads an expression, with `room` levels left for it. -/
def exprIn : (room : Nat) → LineParser Expr
  | 0 => fail (.expressionTooDeep maxNesting)
  | room + 1 => layered (operand (exprIn room) (operandIn room)) layers

/-- Reads the operand of a prefix operator, with `room` levels left for it. -/
def operandIn : (room : Nat) → LineParser Expr
  | 0 => fail (.expressionTooDeep maxNesting)
  | room + 1 => operand (exprIn room) (operandIn room)

end

/-- Reads an expression. -/
def expr : LineParser Expr := exprIn maxNesting

end LineParser

end Portugol
