import Portugol.Keyword

/-!
# The pieces of a line

Before a line is read as tokens it is split into coarser *pieces*: words, quoted
texts, signs of assignment, and single characters. The pieces stop at a comment.
Unlike a token, a piece is never wrong: a quoted text may end with its line.
-/

namespace Portugol

/-- A piece of a line. -/
inductive Piece
  /-- A row of word characters. -/
  | word (cs : List Char)
  /-- A quoted text with its quotes; the closing one may be missing. -/
  | quoted (cs : List Char)
  /-- A sign of assignment other than `<-`. -/
  | assign
  /-- Any other character. -/
  | other (c : Char)
  deriving DecidableEq, Repr, Inhabited

namespace Piece

/-- What stands up to and with the closing quote, or all if there is none, and
    what follows. A backslash takes the next character with it. -/
def closeQuote (quote : Char) : List Char → List Char × List Char
  | [] => ([], [])
  | '\\' :: c :: rest =>
    let (content, rest) := closeQuote quote rest
    ('\\' :: c :: content, rest)
  | c :: rest =>
    if c == quote then ([c], rest)
    else
      let (content, rest) := closeQuote quote rest
      (c :: content, rest)

/-- Closing a quote loses nothing. -/
theorem closeQuote_append (quote : Char) (cs : List Char) :
    (closeQuote quote cs).1 ++ (closeQuote quote cs).2 = cs := by
  fun_induction closeQuote quote cs with
  | case1 => rfl
  | case2 c rest content rest' h ih => simp_all
  | case3 c rest _ h => simp
  | case4 c rest _ h content rest' hc ih => simp_all

/-- What follows a closed quote is no longer than the text. -/
theorem length_closeQuote_le (quote : Char) (cs : List Char) :
    (closeQuote quote cs).2.length ≤ cs.length := by
  have h := congrArg List.length (closeQuote_append quote cs)
  simp at h
  omega

/-- The pieces of a line, up to a comment. -/
def split : List Char → List Piece
  | [] => []
  | c :: cs =>
    if isWordChar c then
      word (c :: cs.takeWhile isWordChar) :: split (cs.dropWhile isWordChar)
    else if c == '\'' || c == '"' then
      quoted (c :: (closeQuote c cs).1) :: split (closeQuote c cs).2
    else if c == '/' && cs.head? == some '/' then []
    else if c == '←' then assign :: split cs
    else if c == ':' && cs.head? == some '=' then assign :: split cs.tail
    else other c :: split cs
termination_by cs => cs.length
decreasing_by
  · have := (List.dropWhile_sublist isWordChar (l := cs)).length_le
    simp only [List.length_cons]
    omega
  · have := length_closeQuote_le c cs
    simp only [List.length_cons]
    omega
  all_goals simp only [List.length_cons, List.length_tail]; omega

/-- A piece as it stands in a normalized line: keywords have their canonical
    spelling, and assignment is `<-`. -/
def normal : Piece → List Char
  | word cs => (Keyword.ofWord? cs).elim cs (·.spelling.toList)
  | quoted cs => cs
  | assign => ['<', '-']
  | other c => [c]

end Piece

end Portugol
