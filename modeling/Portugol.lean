import Portugol.Block
import Portugol.CommandLine
import Portugol.CommandLine.Flags
import Portugol.CommandLine.Help
import Portugol.CommandLine.Host
import Portugol.Dict
import Portugol.Environment
import Portugol.Expr
import Portugol.Expr.Parser
import Portugol.Fault
import Portugol.Input
import Portugol.Input.Stream
import Portugol.Json
import Portugol.Json.Reader
import Portugol.Keyword
import Portugol.Machine
import Portugol.Machine.Expr
import Portugol.Machine.Stmt
import Portugol.Main
import Portugol.Number
import Portugol.Number.Numeral
import Portugol.Number.Printer
import Portugol.Number.Reader
import Portugol.Number.Shortest
import Portugol.Playground
import Portugol.Program
import Portugol.Program.Registry
import Portugol.Proofs.Loop
import Portugol.Proofs.Step
import Portugol.Proofs.Termination
import Portugol.Report
import Portugol.Report.Reader
import Portugol.Run
import Portugol.Source
import Portugol.Source.Piece
import Portugol.Source.Reflow
import Portugol.Stmt
import Portugol.Stmt.Parser
import Portugol.Text.Alphabetic
import Portugol.Text.Blank
import Portugol.Text.CharSet
import Portugol.Text.Letter
import Portugol.Text.Numeric
import Portugol.Text.UpperCase
import Portugol.Token
import Portugol.Token.Lexer
import Portugol.Value
import Portugol.Value.Operators
import Portugol.Watchdog
import Portugol.Proofs.Layout
import Portugol.Proofs.BodyParser
import Portugol.Proofs.Phrase
import Portugol.Proofs.ExprParser
import Portugol.Proofs.Frames
import Portugol.Proofs.Effect
import Portugol.Proofs.Globals
import Portugol.Proofs.Simulation
import Portugol.Proofs.Isolation
import Portugol.Proofs.Supply
import Portugol.Proofs.Limits
import Portugol.Proofs.Parts
import Portugol.Proofs.WellFormed
import Portugol.Proofs.Faults
import Portugol.Proofs.Rejection
import Portugol.Proofs.Blame
import Portugol.Proofs.Lexemes
import Portugol.Proofs.Normalization
import Portugol.Proofs.Cancellation
import Portugol.Proofs.Renaming
import Portugol.Proofs.Respelling
import Portugol.Proofs.Printing
import Portugol.Proofs.Rendering
import Portugol.Proofs.Spans
import Portugol.Proofs.Pieces
import Portugol.Proofs.Reflow
import Portugol.Proofs.Idempotence
import Portugol.Proofs.SimpleTokens
import Portugol.Proofs.Joining
import Portugol.Proofs.Hoisting
import Portugol.Proofs.UnsetResult
import Portugol.Proofs.Units
import Portugol.Proofs.Integers
import Portugol.Proofs.Division
import Portugol.Proofs.Counting
import Portugol.Proofs.Atomicity
import Portugol.Proofs.KeyOrder
import Portugol.Proofs.Elements
import Portugol.Proofs.InputNumbers
import Portugol.Proofs.ReportJson
import Portugol.Proofs.TreeBounds
import Portugol.Proofs.BlockEnds
