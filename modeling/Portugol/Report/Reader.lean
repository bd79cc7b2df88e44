import Portugol.Json.Reader
import Portugol.Number.Numeral
import Portugol.Report

/-!
# Reading reports

A report is read from the JSON that it is written as. Fields may come in any
order, fields with other names are passed over, and what a report need not have
may be missing.
-/

namespace Portugol

/-- The number of a line: digits that spell no more than 32 bits can hold. -/
def Json.lineNumber? : Json → Option Nat
  | .number digits =>
    if isDigits digits && decide (digitsValue digits < 1 <<< 32) then some (digitsValue digits)
    else none
  | _ => none

/-- What a field that need not be there holds, given how to read it. -/
def Json.optional {α : Type} (read : Json → Option α) : Option Json → Option (Option α)
  | none | some .null => some none
  | some value => (read value).map some

/-- The texts that an object of texts has under its names; of two texts under one
    name, the last. -/
def Json.texts? (value : Json) : Option (Dict String String) := do
  let members ← value.members?
  return Dict.ofList (← members.mapM fun (name, value) => value.string?.map (name, ·))

/-- The failure that a JSON value is. -/
def Failure.ofJson? (value : Json) : Option Failure := do
  match ← value.fields ["kind", "message", "line"] with
  | [some kind, some message, line] =>
    return ⟨← kind.string?, ← message.string?, ← Json.optional Json.lineNumber? line⟩
  | _ => none

namespace Report

/-- The report that a JSON value is. -/
def ofJson? (value : Json) : Option Report := do
  match ← value.fields ["output", "error", "variables"] with
  | [some output, failure, globals] =>
    return ⟨← output.string?, ← Json.optional Failure.ofJson? failure,
      ← (globals.map Json.texts?).getD (some [])⟩
  | _ => none

/-- The report that a text is. -/
def parse? (text : String) : Option Report := (Json.parse? text).bind ofJson?

-- What is written reads back, and so does a list of the same values.
example :
    let report : Report := ⟨"é\n", some ⟨"NameError", "x", some 3⟩, [("a", "1")]⟩
    parse? report.toJson = some report := by
  decide +kernel
example : parse? "[\"a\", null]" = some ⟨"a", none, []⟩ := by decide +kernel

end Report

end Portugol
