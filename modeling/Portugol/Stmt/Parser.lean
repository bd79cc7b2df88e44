import Portugol.Expr.Parser
import Portugol.Stmt

/-!
# Reading statements

The statements that stand on one line, and the headers of blocks. Each reads its
line to the end.
-/

namespace Portugol

/-- Whether a line stands in the main program or in a callable. -/
inductive Context
  | main
  | callable
  deriving DecidableEq, Repr, Inhabited

namespace LineParser

/-- Reads the expressions to print up to the end of the line, with or without
    commas; there are no more than there are tokens. -/
def printArgs : (tokens : Nat) → LineParser (List Expr)
  | 0 => return []
  | tokens + 1 => do
    match ← peek with
    | none => return []
    | some _ =>
      let first ← expr
      let _ ← eat (.symbol .comma)
      return first :: (← printArgs tokens)

/-- Reads a variable or an element of an array. -/
def target : LineParser Target := do
  let name ← expectName "uma variável"
  if ← eat (.symbol .openBracket) then
    let index ← expr
    expect (.symbol .closeBracket)
    return .element name index
  else return .var name

/-- Reads targets with commas between them; there are no more than there are
    tokens. -/
def targets : (tokens : Nat) → LineParser (List Target)
  | 0 => unexpected "uma variável"
  | tokens + 1 => do
    let first ← target
    if ← eat (.symbol .comma) then return first :: (← targets tokens)
    else return [first]

/-- Reads what follows a name at the start of a line: a value for it or for one
    of its elements, or arguments. -/
def nameStatement (name text : String) : LineParser Simple := do
  match (← get).tokens with
  | _ :: ⟨.symbol .assign, _⟩ :: _ =>
    advance
    advance
    return .assign name (← expr)
  | _ :: ⟨.symbol .openBracket, _⟩ :: _ =>
    advance
    advance
    let index ← expr
    expect (.symbol .closeBracket)
    expect (.symbol .assign)
    return .assignElement name index (← expr)
  | _ :: ⟨.symbol .openParen, _⟩ :: _ =>
    advance
    return .call name (← callArgs expr)
  | _ => fail (.unknownStatement text)

/-- Reads the line with this text as a statement. -/
def simple (context : Context) (text : String) : LineParser Simple := do
  let statement ← match ← peek with
    | some (.keyword .imprima) => do
      advance
      pure (.print (← printArgs (← get).tokens.length))
    | some (.keyword .imprimaln) => do
      advance
      pure (.printLine (← printArgs (← get).tokens.length))
    | some (.keyword .leia) => do
      advance
      pure (.read (← targets (← get).tokens.length))
    | some (.keyword .retorne) =>
      match context with
      | .main => fail .returnOutsideCallable
      | .callable => do
        advance
        match ← peek with
        | none => pure (.ret none)
        | some _ => pure (.ret (some (← expr)))
    | some (.keyword .fim) | some (.keyword .senao) => fail (.unmatchedTerminator text)
    | some (.name name) => nameStatement name text
    | _ => fail (.unknownStatement text)
  expectEnd
  return statement

/-! ## Headers -/

/-- Reads `SE cond ENTÃO`. -/
def ifHeader : LineParser Expr := do
  expect (.keyword .se)
  let cond ← expr
  expect (.keyword .entao)
  expectEnd
  return cond

/-- Reads `SENÃO`, alone on its line. -/
def alternateMarker : LineParser Unit := do
  expect (.keyword .senao)
  expectEnd

/-- Reads `PARA v <- a ATÉ b FAÇA`. -/
def countHeader : LineParser (String × Expr × Expr) := do
  expect (.keyword .para)
  let var ← expectName "a variável do laço"
  expect (.symbol .assign)
  let first ← expr
  expect (.keyword .ate)
  let last ← expr
  expect (.keyword .faca)
  expectEnd
  return (var, first, last)

/-- Reads `ENQUANTO cond FAÇA`. -/
def whileHeader : LineParser Expr := do
  expect (.keyword .enquanto)
  let cond ← expr
  expect (.keyword .faca)
  expectEnd
  return cond

/-- Reads `REPITA n VEZES`. -/
def timesHeader : LineParser Expr := do
  expect (.keyword .repita)
  let number ← expr
  expect (.keyword .vezes)
  expectEnd
  return number

/-- Reads the parameters behind the opening parenthesis, all different from each
    other and from the ones before; there are no more than there are tokens. -/
def params (callable : String) (before : List String) : (tokens : Nat) → LineParser (List String)
  | 0 => unexpected "um parâmetro"
  | tokens + 1 => do
    let param ← expectName "um parâmetro"
    if param ∈ before then fail (.repeatedParameter param callable)
    if ← eat (.symbol .comma) then
      params callable (before ++ [param]) tokens
    else
      expect (.symbol .closeParen)
      return before ++ [param]

/-- Reads `FUNÇÃO nome(p, ...)` or `PROCEDIMENTO nome(p, ...)`, the latter with
    or without parentheses. -/
def callableHeader (kind : CallableKind) : LineParser (String × List String) := do
  let name ← match kind with
    | .function => do
      expect (.keyword .funcao)
      expectName "o nome"
    | .procedure => do
      expect (.keyword .procedimento)
      expectName "o nome"
  let parens ← match kind with
    | .function => do
      expect (.symbol .openParen)
      pure true
    | .procedure => eat (.symbol .openParen)
  let params ←
    if parens then
      if ← eat (.symbol .closeParen) then pure []
      else params name [] (← get).tokens.length
    else pure []
  expectEnd
  return (name, params)

/-- What a parser makes of a line. -/
def parse {α : Type} (parser : LineParser α) (line : Line) : Except Fault α :=
  (parser.run { line := line.number, tokens := line.tokens }).map Prod.fst

end LineParser

end Portugol
