import Portugol.CommandLine.Flags
import Portugol.CommandLine.Host
import Portugol.Input.Stream
import Portugol.Run

/-!
# The command line

Programs are run, checked and taken apart from the command line. A command is a
function of its arguments and of the host it runs on.
-/

namespace Portugol

/-! ## The commands -/

/-- What a run from the command line is given. -/
def Flags.runOptions (flags : Flags) (host : Host) : RunOptions where
  inputs :=
    if flags.readsStandardInput then .ofStream host.standardInput else { queue := flags.inputs }
  watchdog := { ceiling := flags.ceiling, clock := host.clock }
  maxDepth := flags.maxDepth
  rounds := host.rounds

/-- What a run shows that has ended. Output that was shown as it came may have
    stopped within a line, so a fault ends the line. -/
def Flags.outcome (flags : Flags) (ending : Ending) : Outcome :=
  let report := ending.report
  { code := if report.isSuccess then 0 else 1
    stdout :=
      if flags.json then outputLines [report.toJson]
      else if flags.streams then
        ending.output ++ (if report.isSuccess then "" else "\n")
      else if report.output.isEmpty then ""
      else outputLines [report.output]
    stderr :=
      if flags.json then "" else outputLines (report.failure.map Failure.display).toList }

/-- Runs a program. -/
def Host.run (host : Host) (path : String) (flags : Except FlagError Flags) : Option Outcome :=
  match flags with
  | .error error => some (.refusal ["erro: " ++ error.message])
  | .ok flags => host.withText path fun source =>
    (runSource (flags.runOptions host) source).map flags.outcome

/-- A callable in the list of a program's callables. -/
def Callable.summary (callable : Callable) : String :=
  let params := ", ".intercalate callable.params
  s!"  {callable.kind.spelling} {callable.name}({params}) [linha {callable.line}]"

/-- Reads a program and says what it consists of. -/
def Host.check (host : Host) (path : String) : Option Outcome :=
  host.withText path fun source =>
    match Program.parse source with
    | .error fault => some (.refusal [(Failure.ofFault fault).display])
    | .ok program =>
      let callables := program.registry.map fun (_, callable) => callable.summary
      some
        { stdout := outputLines
            (s!"'{path}': {program.main.length} instruções no programa principal" ::
              if callables.isEmpty then [] else "Sub-rotinas:" :: callables) }

/-- A number in a column of width four. -/
def numberColumn (n : Nat) : String :=
  String.ofList (List.replicate (4 - (toString n).length) ' ') ++ toString n

/-- A line of a program above the list of its tokens. -/
def Line.summary (line : Line) : List String :=
  s!"{numberColumn line.number} | {line.text}" ::
    line.tokens.map fun token =>
      s!"     |   {token.kind.describe} @ coluna {token.span.column}"

/-- Shows the lines of a program and their tokens. -/
def Host.lex (host : Host) (path : String) : Option Outcome :=
  host.withText path fun source =>
    match Source.tokenize source with
    | .error error => some (.refusal [error.display])
    | .ok lines =>
      some
        { stdout := outputLines
            (s!"Tokens de '{path}' ({lines.length} linhas):" :: lines.flatMap Line.summary) }

/-- What a command line asks for. -/
inductive Command
  | help
  | version
  | run (path : String) (flags : Except FlagError Flags)
  | check (path : String)
  | lex (path : String)
  /-- No command: perhaps the path of a program to run. -/
  | other (word : String) (flags : Except FlagError Flags)
  /-- A command without the path that it needs. -/
  | incomplete (usage : String) (more : List String)

namespace Command

/-- The command that arguments spell. -/
def ofArgs : List String → Command
  | [] => help
  | "run" :: path :: args => run path (Flags.parse args)
  | "run" :: [] => incomplete "Uso: peteqs run <arquivo> [opções]" Help.flags
  | "check" :: path :: _ => check path
  | "check" :: [] => incomplete "Uso: peteqs check <arquivo>" []
  | "lex" :: path :: _ => lex path
  | "lex" :: [] => incomplete "Uso: peteqs lex <arquivo>" []
  | word :: args =>
    if word ∈ ["help", "--help", "-h"] then help
    else if word ∈ ["version", "--version", "-v"] then version
    else other word (Flags.parse args)

/-- The file that a command needs. -/
def path? : Command → Option String
  | run path _ | check path | lex path | other path _ => some path
  | help | version | incomplete _ _ => none

/-- Whether a command may read standard input. -/
def readsStandardInput : Command → Bool
  | run _ (.ok flags) | other _ (.ok flags) => flags.readsStandardInput
  | _ => false

/-- What a command does. There is no outcome if some loop of the program would
    need more rounds than it may have. -/
def execute (host : Host) : Command → Option Outcome
  | help => some { stdout := outputLines Help.usage }
  | version => some { stdout := outputLines [versionText] }
  | run path flags => host.run path flags
  | check path => host.check path
  | lex path => host.lex path
  | other word flags =>
    match host.file word with
    | .content _ => host.run word flags
    | _ => some
      { code := 1
        stdout := outputLines Help.usage
        stderr := outputLines [s!"Comando desconhecido: {word}", ""] }
  | incomplete usage more => some
    { code := 1
      stdout := outputLines more
      stderr := outputLines (usage :: if more.isEmpty then [] else [""]) }

end Command

/-! ## The filter -/

/-- Runs the program on standard input with the arguments as its inputs. -/
def Host.filter (host : Host) (args : List String) : Option Outcome :=
  match String.fromUTF8? host.standardInput with
  | none => some (.refusal [s!"Erro ao ler a entrada: {Inputs.encodingFailure}"])
  | some source =>
    let options :=
      { inputs := { queue := args }, watchdog := { clock := host.clock }, rounds := host.rounds }
    (interpret options source).map fun report =>
      { code := if report.isSuccess then 0 else 1
        stdout := if report.output.isEmpty then "" else outputLines [report.output]
        stderr := outputLines (report.failure.map Failure.display).toList }

end Portugol
