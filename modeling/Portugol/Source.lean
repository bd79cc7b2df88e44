import Portugol.Source.Reflow
import Portugol.Token.Lexer

/-!
# Source texts

The way from a program's text to its lines of tokens:

* `normalize` gives the physical lines, whatever marks their ends, without
  comments and with the canonical spelling of keywords and assignment; a program
  on a single line is reflowed;
* `segments` gives the lines with something on them, without the blanks around
  it, each with the number of the physical line it stands on;
* `tokenize` reads these as tokens.
-/

namespace Portugol

/-- A text and the number of the physical line it stands on. -/
structure SourceLine where
  number : Nat
  text : String
  deriving DecidableEq, Repr, Inhabited

namespace Source

/-- The text with all line ends written as a line feed. -/
def unifyBreaks : List Char → List Char
  | '\r' :: '\n' :: rest => '\n' :: unifyBreaks rest
  | '\r' :: rest => '\n' :: unifyBreaks rest
  | c :: rest => c :: unifyBreaks rest
  | [] => []

theorem unifyBreaks_cons {c : Char} (hc : c ≠ '\r') (text : List Char) :
    unifyBreaks (c :: text) = c :: unifyBreaks text := by
  rw [unifyBreaks]
  · exact fun _ hreturn => absurd hreturn hc
  · exact hc

theorem unifyBreaks_return {text : List Char} (h : text.head? ≠ some '\n') :
    unifyBreaks ('\r' :: text) = '\n' :: unifyBreaks text := by
  rw [unifyBreaks]
  rintro rest rfl
  exact h rfl

/-- No carriage return is left. -/
theorem return_not_mem_unifyBreaks (text : List Char) : '\r' ∉ unifyBreaks text := by
  fun_induction unifyBreaks text with
  | case1 text ih | case2 text _ ih => simp [ih]
  | case3 c text _ hc ih => simpa [ih] using fun h => hc h.symm
  | case4 => exact List.not_mem_nil

/-- The lines of a text: one more than it has line feeds. -/
def lines : List Char → List (List Char)
  | [] => [[]]
  | '\n' :: rest => [] :: lines rest
  | c :: rest =>
    match lines rest with
    | [] => [[c]]
    | line :: more => (c :: line) :: more

theorem lines_cons {c : Char} {text line : List Char} {more : List (List Char)} (hc : c ≠ '\n')
    (h : lines text = line :: more) : lines (c :: text) = (c :: line) :: more := by
  rw [lines, h]
  exact fun hnewline => hc hnewline

/-- A line without its comment and in canonical spelling. -/
def normalLine (line : List Char) : List Char := (Piece.split line).flatMap Piece.normal

/-- The physical lines of a program in canonical spelling, the first with the
    number `number`. -/
def numbered (number : Nat) : List (List Char) → List (Nat × List Char)
  | [] => []
  | line :: rest => (number, normalLine line) :: numbered (number + 1) rest

/-- The physical lines of a program, normalized. If a single one is not blank, it
    is reflowed, and then holds line feeds. -/
def normalize (source : String) : List SourceLine :=
  let physical := numbered 1 (lines (unifyBreaks source.toList))
  let single := (physical.filter fun line => !allBlank line.2).length == 1
  physical.map fun (number, text) =>
    ⟨number, String.ofList (if single && !allBlank text then reflow text else text)⟩

/-- The statements of normalized lines. -/
def segments (source : List SourceLine) : List SourceLine :=
  source.flatMap fun line =>
    (((lines line.text.toList).map trim).filter (!·.isEmpty)).map
      fun text => ⟨line.number, String.ofList text⟩

/-- A program as lines of tokens, or what is wrong with the first bad line. -/
def tokenize (source : String) : Except LexError (List Line) :=
  (segments (normalize source)).mapM fun line => Line.ofText line.number line.text

end Source

end Portugol
