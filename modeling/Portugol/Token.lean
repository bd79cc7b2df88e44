import Portugol.Keyword
import Portugol.Number.Printer

/-!
# Tokens

A statement stands on one line, which is a row of tokens. A token knows where it
stands in its line, in bytes, so that messages can name the column.
-/

namespace Portugol

/-- Where a token stands in its line: the bytes from `start` up to `stop`. -/
structure Span where
  start : Nat
  stop : Nat
  deriving DecidableEq, Repr, Inhabited

namespace Span

/-- Positions are counted up to here and no further. -/
def limit : Nat := 0xFFFFFFFF

/-- The span between two positions, both cut at the limit. -/
def between (start stop : Nat) : Span := ⟨min start limit, min stop limit⟩

/-- The column of the first byte, counted from one. -/
def column (s : Span) : Nat := min (s.start + 1) limit

def text (s : Span) : String := s!"{s.start}..{s.stop}"

end Span

/-- The tokens that are not words or literals. -/
inductive Symbol
  | assign
  | equal | notEqual | less | lessEqual | greater | greaterEqual
  | plus | minus | times | slash
  | openParen | closeParen | openBracket | closeBracket | comma
  deriving DecidableEq, Repr, Inhabited

def Symbol.spelling : Symbol → String
  | assign => "<-"
  | equal => "="
  | notEqual => "<>"
  | less => "<"
  | lessEqual => "<="
  | greater => ">"
  | greaterEqual => ">="
  | plus => "+"
  | minus => "-"
  | times => "*"
  | slash => "/"
  | openParen => "("
  | closeParen => ")"
  | openBracket => "["
  | closeBracket => "]"
  | comma => ","

/-- What a token is. -/
inductive TokenKind
  | number (n : Number)
  | text (s : String)
  | name (s : String)
  | keyword (k : Keyword)
  | symbol (s : Symbol)
  deriving DecidableEq, Inhabited

/-- The token as messages call it. -/
def TokenKind.describe : TokenKind → String
  | number n => s!"número `{n.plainText}`"
  | text s => s!"texto '{s}'"
  | name s => s!"`{s}`"
  | keyword k => s!"`{k.spelling}`"
  | symbol s => s!"`{s.spelling}`"

structure Token where
  kind : TokenKind
  span : Span
  deriving DecidableEq, Inhabited

/-- A line of a program as its tokens. -/
structure Line where
  /-- The number of the line in the program, from one. -/
  number : Nat
  text : String
  tokens : List Token
  deriving DecidableEq, Inhabited

namespace Line

/-- The keyword at the start of the line. -/
def leading (line : Line) : Option Keyword :=
  match line.tokens with
  | ⟨.keyword k, _⟩ :: _ => some k
  | _ => none

/-- Whether the line consists of `FIM` and this keyword. -/
def isEndOf (line : Line) (keyword : Keyword) : Bool :=
  line.tokens.map Token.kind == [.keyword .fim, .keyword keyword]

end Line

end Portugol
