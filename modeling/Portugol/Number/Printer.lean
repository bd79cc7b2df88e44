import Portugol.Number.Shortest

/-!
# The text of a number

Numbers are written with their shortest digits, in one of two forms:

* `plainText` has no exponent whatever the magnitude, and keeps the sign of
  zero; it describes numbers to whoever wrote them in a program;
* `displayText` is what a program prints: magnitudes from `10 ^ 21` up and those
  below `10 ^ (-6)` have an exponent with its sign, zero has no sign, and the
  infinite numbers are spelled out.
-/

namespace Portugol

namespace Decimal

/-- The decimal without an exponent. -/
def positional (d : Decimal) : String :=
  let digits := d.text
  if 0 ≤ d.scale then String.ofList (digits ++ List.replicate d.scale.toNat '0')
  else
    let places := (-d.scale).toNat
    if places < digits.length then
      String.ofList (digits.take (digits.length - places) ++
        '.' :: digits.drop (digits.length - places))
    else "0." ++ String.ofList (List.replicate (places - digits.length) '0' ++ digits)

/-- One digit, the others behind a point, and a power of ten with its sign. -/
def scientific (d : Decimal) : String :=
  let power := d.scale + (d.text.length : Int) - 1
  let mantissa := match d.text with
    | first :: second :: rest => first :: '.' :: second :: rest
    | digits => digits
  String.ofList mantissa ++ (if 0 ≤ power then "e+" else "e-") ++ toString power.natAbs

end Decimal

namespace Number

/-- The text with a minus sign if the number is negative. -/
def signed (x : Number) (text : String) : String := if x.negative then "-" ++ text else text

/-- The number without an exponent. -/
def plainText (x : Number) : String :=
  if x.isNaN then "NaN"
  else if x.isInfinite then x.signed "inf"
  else if x.isZero then x.signed "0"
  else x.signed x.shortest.positional

/-- Whether a magnitude is written without an exponent. -/
def isPositional (x : Number) : Bool :=
  decide ((ofRatio false 1 (tenPow 6)).body ≤ x.body ∧ x.body < (ofNat false (tenPow 21)).body)

/-- The number as a program prints it. -/
def displayText (x : Number) : String :=
  if x.isNaN then "NaN"
  else if x.isInfinite then x.signed "Infinito"
  else if x.isZero then "0"
  else if x.isPositional then x.signed x.shortest.positional
  else x.signed x.shortest.scientific

-- A number has the fewest digits that tell it from its neighbours.
example : (ofRatio false 1 10).displayText = "0.1" := by decide +kernel
example : (ofRatio false 1 10 + ofRatio false 2 10).displayText = "0.30000000000000004" := by
  decide +kernel

-- The exponent begins at `10 ^ 21` and below `10 ^ (-6)`, and only in what is printed.
example : (ofNat true (tenPow 20)).displayText = "-100000000000000000000" := by decide +kernel
example : (ofNat false (tenPow 21)).displayText = "1e+21" := by decide +kernel
example : (ofNat false (tenPow 21)).plainText = "1000000000000000000000" := by decide +kernel
example : (ofRatio false 1 (tenPow 6)).displayText = "0.000001" := by decide +kernel
example : (ofRatio false 15 (tenPow 8)).displayText = "1.5e-7" := by decide +kernel

-- Only what describes a number keeps the sign of zero.
example : (zero true).displayText = "0" ∧ (zero true).plainText = "-0" := by decide +kernel

end Number

end Portugol
