import Portugol.CommandLine.Help
import Portugol.Watchdog

/-!
# Hosts

What a command finds around it, the *host*, and what it does to the outside, its
*outcome*.
-/

namespace Portugol

/-- What is found under a path. -/
inductive FileEntry
  | missing
  | directory
  | content (bytes : ByteArray)
  deriving Inhabited

/-- What a command finds around it. -/
structure Host where
  file : String → FileEntry
  standardInput : ByteArray := .empty
  /-- What the clock shows after so many readings. -/
  clock : Nat → Nat := fun _ => 0
  /-- No loop starts more rounds than this. -/
  rounds : Nat

/-- What a command does to the outside. -/
structure Outcome where
  code : Nat := 0
  stdout : String := ""
  stderr : String := ""
  deriving DecidableEq, Repr, Inhabited

/-- The outcome of a command that cannot do its work. -/
def Outcome.refusal (messages : List String) : Outcome :=
  { code := 1, stderr := outputLines messages }

/-! ## Files -/

/-- Why a program cannot be read from a file. -/
inductive FileError
  | missing
  | directory
  /-- The bytes spell no text. -/
  | encoding
  deriving DecidableEq, Repr, Inhabited

def FileError.message (path : String) : FileError → String
  | missing => s!"arquivo não encontrado: '{path}'"
  | directory => s!"erro ao ler '{path}': Is a directory (os error 21)"
  | encoding => s!"'{path}' não está codificado em UTF-8"

/-- The text of a file. -/
def Host.read (host : Host) (path : String) : Except FileError String :=
  match host.file path with
  | .missing => .error .missing
  | .directory => .error .directory
  | .content bytes => (String.fromUTF8? bytes).elim (.error .encoding) .ok

/-- Goes on with the text of a file. -/
def Host.withText (host : Host) (path : String) (next : String → Option Outcome) :
    Option Outcome :=
  match host.read path with
  | .error error => some (.refusal [error.message path])
  | .ok text => next text

end Portugol
