import Portugol.Fault
import Portugol.Token

/-!
# Blocks of lines

A block starts with a line that has its opener in front and ends with a line
that is exactly `FIM` and the opener. `BlockKind.findEnd` finds the end by
counting the lines that open and close blocks of the same kind; blocks of other
kinds in between are left to whoever reads the body.
-/

namespace Portugol

/-- The kinds of blocks. -/
inductive BlockKind
  | ifElse
  | count
  | whileDo
  | times
  | function
  | procedure
  deriving DecidableEq, Repr, Inhabited

/-- Where a block ends, as positions in a list of lines. -/
structure BlockExtent where
  /-- The line with the alternate marker of this block. -/
  alternate : Option Nat
  /-- The line that closes it. -/
  stop : Nat
  deriving DecidableEq, Repr, Inhabited

namespace BlockExtent

/-- The lines from the first bound up to the second are the body of the block
    that starts at `start`. -/
def body (extent : BlockExtent) (start : Nat) : Nat × Nat :=
  (start + 1, extent.alternate.getD extent.stop)

/-- The bounds of the body behind the alternate marker. -/
def alternateBody (extent : BlockExtent) : Option (Nat × Nat) :=
  extent.alternate.map fun alternate => (alternate + 1, extent.stop)

end BlockExtent

namespace BlockKind

/-- The keyword that opens the block and follows `FIM` at its end. -/
def opener : BlockKind → Keyword
  | ifElse => .se
  | count => .para
  | whileDo => .enquanto
  | times => .repita
  | function => .funcao
  | procedure => .procedimento

/-- The kind of block that a keyword opens. -/
def ofOpener? : Keyword → Option BlockKind
  | .se => some ifElse
  | .para => some count
  | .enquanto => some whileDo
  | .repita => some times
  | .funcao => some function
  | .procedimento => some procedure
  | _ => none

/-- The keyword between the two bodies of a block, if it can have two. -/
def alternate : BlockKind → Option Keyword
  | ifElse => some .senao
  | _ => none

/-- The kind of block that a line opens. -/
def ofLine? (line : Line) : Option BlockKind := line.leading.bind ofOpener?

/-- Whether a line opens a block of this kind. -/
def opens (kind : BlockKind) (line : Line) : Bool := line.leading == some kind.opener

/-- Whether a line closes a block of this kind. -/
def closes (kind : BlockKind) (line : Line) : Bool := line.isEndOf kind.opener

/-- Whether a line separates the two bodies of a block of this kind. -/
def separates (kind : BlockKind) (line : Line) : Bool :=
  kind.alternate.any fun keyword => line.leading == some keyword

/-- Reads lines from position `index` on, inside `depth + 1` open blocks of this
    kind. Only an alternate marker at depth zero belongs to the block itself. -/
def scan (kind : BlockKind) (index depth : Nat) (alternate : Option Nat) :
    List Line → Option BlockExtent
  | [] => none
  | line :: rest =>
    if kind.opens line then scan kind (index + 1) (depth + 1) alternate rest
    else if kind.closes line then
      match depth with
      | 0 => some ⟨alternate, index⟩
      | depth + 1 => scan kind (index + 1) depth alternate rest
    else
      let found := depth == 0 && alternate.isNone && kind.separates line
      scan kind (index + 1) depth (if found then some index else alternate) rest

/-- Where the block that starts at position `start` ends. -/
def findEnd (kind : BlockKind) (lines : List Line) (start : Nat) : Except Fault BlockExtent :=
  match scan kind (start + 1) 0 none (lines.drop (start + 1)) with
  | some extent => .ok extent
  | none =>
    let line := (lines[start]?).elim 0 Line.number
    .error { cause := .unclosedBlock kind.opener.spelling line, line := some line }

end BlockKind

end Portugol
