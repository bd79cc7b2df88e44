import Portugol.Source.Piece
import Portugol.Text.Blank

/-!
# Reflow

A program may stand on a single line. `reflow` gives each of its statements a
line of its own. A line ends

* before a keyword that starts a statement, unless it follows `FIM`;
* behind `ENTÃO`, `FAÇA`, `VEZES` and `SENÃO`;
* behind the word that follows `FIM`.

A statement that starts with a name has no mark of its own, so it gets a line
only where one ends before it.
-/

namespace Portugol

namespace Reflow

/-- How far a line has been reflowed. -/
structure State where
  /-- The text so far, from its end to its start. -/
  written : List Char := []
  /-- Whether the last word was `FIM`. -/
  afterEnd : Bool := false
  /-- Whether a line ends before whatever is written next. -/
  breakPending : Bool := false

/-- Ends the line, unless nothing has been written. Blanks at its end are
    dropped. -/
def endLine (written : List Char) : List Char :=
  match written.dropWhile isBlank with
  | [] => []
  | kept => '\n' :: kept

/-- Writes one piece. -/
def step (s : State) : Piece → State
  | .word cs =>
    let keyword := Keyword.ofWord? cs
    let ends := s.breakPending || (keyword.any (·.startsStatement) && !s.afterEnd)
    { written := cs.reverse ++ if ends then endLine s.written else s.written
      breakPending := s.afterEnd || keyword.any (·.breaksAfter)
      afterEnd := keyword == some .fim }
  | .quoted cs =>
    { written := cs.reverse ++ if s.breakPending then endLine s.written else s.written
      breakPending := false
      afterEnd := false }
  | .other c =>
    let ends := s.breakPending && !isBlank c
    { s with
      written := c :: if ends then endLine s.written else s.written
      breakPending := s.breakPending && !ends }
  | .assign => { s with written := '-' :: '<' :: s.written, afterEnd := false }

end Reflow

/-- A line with each of its statements on a line of its own. -/
def reflow (line : List Char) : List Char :=
  ((Piece.split line).foldl Reflow.step {}).written.reverse

-- A name gets a line of its own only behind the end of a header or a block.
example :
    reflow "SE a ENTÃO x <- 1 y <- 2 FIM SE z <- 3".toList =
      "SE a ENTÃO\nx <- 1 y <- 2\nFIM SE\nz <- 3".toList := by
  decide +kernel

end Portugol
