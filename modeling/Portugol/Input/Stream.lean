import Portugol.Input
import Portugol.Report

/-!
# Inputs from a stream

A stream of bytes gives one input for each of its lines. A line ends with a line
feed or with the stream, and its end is no part of the input. Lines are read one
by one, so that bytes which spell no text do harm only once they are reached.
-/

namespace Portugol

/-- The lines of a stream; each but the last ends with a line feed. -/
def byteLines : List UInt8 → List (List UInt8)
  | [] => []
  | byte :: rest =>
    if byte = 10 then [byte] :: byteLines rest
    else
      match byteLines rest with
      | [] => [[byte]]
      | line :: more => (byte :: line) :: more

/-- The text that bytes spell. -/
def textOfBytes? (bytes : List UInt8) : Option String := String.fromUTF8? ⟨bytes.toArray⟩

namespace Inputs

/-- Why bytes are not read as text. -/
def encodingFailure : String := "stream did not contain valid UTF-8"

/-- The inputs on the lines of a stream, up to the first line that is no text. -/
def ofLines : List (List UInt8) → Inputs
  | [] => {}
  | line :: rest =>
    match textOfBytes? line with
    | none => { failure := some encodingFailure }
    | some text =>
      let inputs := ofLines rest
      { inputs with queue := String.ofList (trimBreaks text.toList) :: inputs.queue }

/-- The inputs that a stream gives. -/
def ofStream (bytes : ByteArray) : Inputs := ofLines (byteLines bytes.toList)

end Inputs

end Portugol
