import Portugol.Number

/-!
# Numerals

A *numeral* is a row of digits, optionally with a point and more digits behind
it: `12`, `3.25`. It denotes the number nearest to the decimal it spells, and
infinity if the decimal is too large. Exponents and signs are no part of it.
-/

namespace Portugol

/-- The value of a row of digits. -/
def digitsValue (digits : List Char) : Nat :=
  digits.foldl (fun value c => value * 10 + (c.toNat - '0'.toNat)) 0

/-- A row of digits that is not empty. -/
def isDigits (cs : List Char) : Bool := !cs.isEmpty && cs.all Char.isDigit

namespace Numeral

/-- The longest numeral at the start of a text that starts with a digit, and the
    rest. A point belongs to it only if a digit follows. -/
def split (cs : List Char) : List Char × List Char :=
  let whole := cs.takeWhile Char.isDigit
  match cs.dropWhile Char.isDigit with
  | '.' :: c :: rest =>
    if c.isDigit then
      (whole ++ '.' :: (c :: rest).takeWhile Char.isDigit, (c :: rest).dropWhile Char.isDigit)
    else (whole, '.' :: c :: rest)
  | rest => (whole, rest)

/-- Whether a whole text is a numeral. -/
def isNumeral (cs : List Char) : Bool :=
  isDigits (cs.takeWhile (· != '.')) &&
    match cs.dropWhile (· != '.') with
    | [] => true
    | _ :: fraction => isDigits fraction

/-- The number that a numeral denotes. -/
def value (cs : List Char) : Number :=
  let fraction := (cs.dropWhile Char.isDigit).drop 1
  Number.ofRatio false (digitsValue (cs.takeWhile Char.isDigit ++ fraction))
    (tenPow fraction.length)

end Numeral

end Portugol
