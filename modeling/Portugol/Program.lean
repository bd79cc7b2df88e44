import Portugol.Block
import Portugol.Program.Registry
import Portugol.Source
import Portugol.Stmt.Parser

/-!
# Programs

A program is a list of statements and the callables that they use. Its lines are
read as statements and blocks: the extent of a block is found first, then its
header is read, then its body as a program of its own, one level deeper. Blocks
nest at most `maxBlocks` deep, and callables are defined only outside callables.
-/

namespace Portugol

/-- A program: what it does, and the callables it uses. -/
structure Program where
  main : List Stmt
  registry : Registry
  deriving Inhabited

namespace Program

/-- Blocks nest no deeper than this. -/
def maxBlocks : Nat := 256

/-- The lines from the first bound up to the second. -/
def slice (lines : List Line) (bounds : Nat × Nat) : List Line :=
  (lines.take bounds.2).drop bounds.1

/-- Reads lines as statements of the given context. -/
abbrev BodyParser := Context → List Line → Except Fault (List Stmt)

/-- Reads a definition of a callable, given how to read its body. -/
def definition (inner : BodyParser) (context : Context) (kind : CallableKind) (header : Line)
    (body : List Line) : Except Fault Stmt := do
  if context = .callable then
    throw { cause := .nestedDefinition kind.spelling, line := some header.number }
  let (name, params) ← (LineParser.callableHeader kind).parse header
  return .define header.number kind name params (← inner .callable body)

/-- Reads the block with this header at the start of `lines`, given its extent
    and how to read its bodies. -/
def block (inner : BodyParser) (context : Context) (kind : BlockKind) (header : Line)
    (lines : List Line) (extent : BlockExtent) : Except Fault Stmt := do
  let body := slice lines (extent.body 0)
  match kind with
  | .ifElse =>
    let cond ← LineParser.ifHeader.parse header
    let thenBody ← inner context body
    match extent.alternate with
    | none => return .ifThen header.number cond thenBody
    | some alternate =>
      if let some marker := lines[alternate]? then LineParser.alternateMarker.parse marker
      let elseBody ← inner context (slice lines (alternate + 1, extent.stop))
      return .ifElse header.number cond thenBody elseBody
  | .count =>
    let (var, first, last) ← LineParser.countHeader.parse header
    return .count header.number var first last (← inner context body)
  | .whileDo =>
    let cond ← LineParser.whileHeader.parse header
    return .whileDo header.number cond (← inner context body)
  | .times =>
    let number ← LineParser.timesHeader.parse header
    return .times header.number number (← inner context body)
  | .function => definition inner context .function header body
  | .procedure => definition inner context .procedure header body

/-- Reads lines as statements, given how to read the bodies of blocks, unless
    there can be none. -/
def items (inner : Option BodyParser) (context : Context) : List Line → Except Fault (List Stmt)
  | [] => return []
  | header :: rest =>
    match BlockKind.ofLine? header with
    | none => do
      let action ← (LineParser.simple context header.text).parse header
      return .simple header.number action :: (← items inner context rest)
    | some kind =>
      match inner with
      | none => throw { cause := .blocksTooDeep maxBlocks, line := some header.number }
      | some inner => do
        let extent ← kind.findEnd (header :: rest) 0
        let stmt ← block inner context kind header (header :: rest) extent
        return stmt :: (← items (some inner) context (rest.drop extent.stop))
termination_by lines => lines.length
decreasing_by
  all_goals simp only [List.length_cons, List.length_drop]; omega

/-- Reads lines as statements, with `room` levels of blocks left. -/
def bodyIn : (room : Nat) → BodyParser
  | 0 => items none
  | room + 1 => items (some (bodyIn room))

/-- The program that lines of tokens make up. -/
def ofLines (lines : List Line) : Except Fault Program := do
  let stmts ← bodyIn maxBlocks .main lines
  let (main, registry) ← (hoist stmts).run []
  return { main, registry }

/-- The program that a text makes up. A line that cannot be read as tokens is
    malformed. -/
def parse (source : String) : Except Fault Program :=
  match Source.tokenize source with
  | .error error => .error { cause := .malformed error.message, line := some error.line }
  | .ok lines => ofLines lines

end Program

end Portugol
