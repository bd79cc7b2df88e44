import Portugol.CommandLine

/-!
# The interpreter as a program

Gathers what a command needs from the outside, and writes its outcome.

A run is a function of what it is given, and so it cannot look at the time of day.
In its place stands `hostClock`, which goes on by a microsecond at each reading. So
`--timeout` bounds how often the clock is read while a loop goes on, once before each
round of it and of the loops in it, and not the time that passes.
-/

namespace Portugol

/-- The clock of a run goes on by a microsecond at each reading, which is about
    what a round of a loop takes. -/
def hostClock : Clock := { step := 1000 }

/-- More rounds than any machine will live to see. -/
def hostRounds : Nat := 1 <<< 62

/-- What the file system has under a path. -/
def findFile (path : String) : IO FileEntry := do
  try
    return .content (← IO.FS.readBinFile path)
  catch
    | .noFileOrDirectory .. => return .missing
    | _ => return .directory

/-- All of standard input that is left. -/
partial def readToEnd (stream : IO.FS.Stream) (bytes : ByteArray) : IO ByteArray := do
  let more ← stream.read 65536
  if more.isEmpty then return bytes else readToEnd stream (bytes ++ more)

end Portugol

open Portugol in
def main (args : List String) : IO UInt32 := do
  let command := Command.ofArgs args
  let entry ← match command.path? with
    | some path => findFile path
    | none => pure .missing
  let standardInput ← match entry, command.readsStandardInput with
    | .content _, true => readToEnd (← IO.getStdin) .empty
    | _, _ => pure .empty
  let host :=
    { file := fun _ => entry, standardInput, clock := hostClock, rounds := hostRounds }
  match command.execute host with
  | none => return 1
  | some outcome =>
    IO.print outcome.stdout
    IO.eprint outcome.stderr
    return outcome.code.toUInt32
