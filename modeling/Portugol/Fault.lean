/-!
# Faults

Whatever is wrong with a program or its run is a *fault*: a cause, and the line
it is blamed on if there is one. Causes hold the words that their messages need;
`Cause.message` is the only place with the wording, and `Cause.kind` sorts the
causes for whoever runs a program.
-/

namespace Portugol

/-- The kinds of faults. -/
inductive FaultKind
  /-- The text is no program. -/
  | parse
  /-- A name stands for nothing. -/
  | name
  /-- A value has the wrong type. -/
  | type
  /-- A loop has run for too long. -/
  | timeout
  /-- Anything else that stops a run. -/
  | runtime
  /-- There is nothing to read; more inputs would help. -/
  | input
  deriving DecidableEq, Repr, Inhabited

/-- The kind as results and messages call it. -/
def FaultKind.label : FaultKind → String
  | parse => "ParseError"
  | name => "NameError"
  | type => "TypeError"
  | timeout => "TimeoutError"
  | runtime => "RuntimeError"
  | input => "InputError"

/-- A second in nanoseconds. -/
def second : Nat := 1000000000

/-- A millisecond in nanoseconds. -/
def millisecond : Nat := 1000000

/-- What is wrong. -/
inductive Cause
  /-- A line is malformed, for a reason given in words. -/
  | malformed (reason : String)
  | unexpectedToken (found expected : String) (column : Nat)
  | unexpectedEnd (expected : String)
  | trailingToken (found : String) (column : Nat)
  | unclosedBlock (opener : String) (line : Nat)
  | unmatchedTerminator (text : String)
  | unknownStatement (text : String)
  | repeatedParameter (param callable : String)
  | duplicateCallable (name : String) (first : Nat)
  | nestedDefinition (keyword : String)
  | returnOutsideCallable
  | blocksTooDeep (limit : Nat)
  | expressionTooDeep (limit : Nat)
  | tooManyOperators (limit : Nat)
  | undefinedVariable (name : String)
  | undefinedElement (name index : String)
  | undefinedCallable (name : String)
  | unsetResult (function binding : String)
  | binaryMismatch (operator left right : String)
  | unaryMismatch (operator operand : String)
  | expectedType (context expected got : String)
  | notAnArray (name got : String)
  | invalidIndex (got : String)
  /-- A loop has run past its ceiling, in nanoseconds. -/
  | loopTimeout (ceiling : Nat)
  | divisionByZero
  | moduloByZero
  | wrongArgCount (name : String) (expected got : Nat)
  | procedureHasNoValue (name : String)
  | callDepthExceeded (limit : Nat)
  | cancelled
  | inputExhausted (target : String)
  | inputFailed (reason : String)
  deriving DecidableEq, Repr, Inhabited

namespace Cause

def kind : Cause → FaultKind
  | malformed .. | unexpectedToken .. | unexpectedEnd .. | trailingToken .. | unclosedBlock ..
  | unmatchedTerminator .. | unknownStatement .. | repeatedParameter .. | duplicateCallable ..
  | nestedDefinition .. | returnOutsideCallable | blocksTooDeep .. | expressionTooDeep ..
  | tooManyOperators .. => .parse
  | undefinedVariable .. | undefinedElement .. | undefinedCallable .. | unsetResult .. => .name
  | binaryMismatch .. | unaryMismatch .. | expectedType .. | notAnArray .. | invalidIndex .. =>
    .type
  | loopTimeout .. => .timeout
  | divisionByZero | moduloByZero | wrongArgCount .. | procedureHasNoValue ..
  | callDepthExceeded .. | cancelled => .runtime
  | inputExhausted .. | inputFailed .. => .input

/-- A time in nanoseconds: in seconds if they are whole, else in milliseconds. -/
def durationText (nanos : Nat) : String :=
  if nanos % second = 0 then s!"{nanos / second} segundos" else s!"{nanos / millisecond} ms"

def message : Cause → String
  | malformed reason => reason
  | unexpectedToken found expected column =>
    s!"esperado {expected}, encontrado {found} (coluna {column})"
  | unexpectedEnd expected => s!"esperado {expected} antes do fim da linha"
  | trailingToken found column =>
    s!"texto inesperado após o comando: {found} (coluna {column})"
  | unclosedBlock opener line =>
    s!"bloco {opener} iniciado na linha {line} não foi fechado com FIM {opener}"
  | unmatchedTerminator text => s!"`{text}` sem bloco correspondente"
  | unknownStatement text => s!"comando não reconhecido: {text}"
  | repeatedParameter param callable => s!"parâmetro '{param}' repetido em {callable}"
  | duplicateCallable name first => s!"'{name}' já foi definido na linha {first}"
  | nestedDefinition keyword =>
    s!"{keyword} não pode ser definido dentro de outra função ou procedimento"
  | returnOutsideCallable => "RETORNE fora de função ou procedimento"
  | blocksTooDeep limit => s!"blocos aninhados demais (limite de {limit} níveis)"
  | expressionTooDeep limit => s!"expressão aninhada demais (limite de {limit} níveis)"
  | tooManyOperators limit => s!"operadores demais na mesma linha (limite de {limit})"
  | undefinedVariable name => s!"variável não definida: {name}"
  | undefinedElement name index => s!"elemento não definido: {name}[{index}]"
  | undefinedCallable name => s!"função ou procedimento não definido: {name}"
  | unsetResult function binding =>
    s!"a função {function} terminou sem atribuir valor a '{binding}'"
  | binaryMismatch operator left right =>
    s!"operador `{operator}` não pode ser aplicado a {left} e {right}"
  | unaryMismatch operator operand => s!"operador `{operator}` não pode ser aplicado a {operand}"
  | expectedType context expected got => s!"{context} deve ser {expected}, mas é {got}"
  | notAnArray name got => s!"'{name}' não é um vetor (é {got})"
  | invalidIndex got => s!"{got} não pode ser usado como índice de vetor"
  | loopTimeout ceiling => s!"Tempo máximo de execução excedido ({durationText ceiling})"
  | divisionByZero => "divisão por zero"
  | moduloByZero => "resto de divisão por zero (MOD)"
  | wrongArgCount name expected got =>
    let noun := if expected = 1 then "argumento" else "argumentos"
    s!"{name} espera {expected} {noun}, recebeu {got}"
  | procedureHasNoValue name => s!"o procedimento {name} não retorna valor"
  | callDepthExceeded limit => s!"profundidade máxima de chamadas excedida ({limit})"
  | cancelled => "execução cancelada"
  | inputExhausted target => s!"nenhuma entrada disponível para LEIA {target}"
  | inputFailed reason => s!"falha ao ler entrada: {reason}"

end Cause

/-- What is wrong, and the line it is blamed on. -/
structure Fault where
  cause : Cause
  line : Option Nat := none
  deriving DecidableEq, Repr, Inhabited

namespace Fault

def kind (f : Fault) : FaultKind := f.cause.kind

def message (f : Fault) : String := f.cause.message

/-- The fault blamed on this line. -/
def atLine (f : Fault) (line : Nat) : Fault := { f with line := some line }

/-- The fault blamed on this line, unless it is blamed on one already. -/
def orLine (f : Fault) (line : Nat) : Fault := { f with line := f.line <|> some line }

/-- The kind and the message. -/
def display (f : Fault) : String := s!"{f.kind.label}: {f.message}"

end Fault

end Portugol
