import Portugol.Number.Numeral

/-!
# Reading numbers

Outside programs a number may have a sign, a point without digits on one of its
sides, an exponent, or be one of the words for what has no digits: `+5.`,
`-.5`, `1e-3`, `inf`, `infinity`, `nan`, in any case.
-/

namespace Portugol

/-- Numbers from ten to this power on are too large. -/
def overflowPower : Int := 309

/-- Numbers below ten to this power are nearer to zero than to any other number. -/
def underflowPower : Int := -324

/-- The number nearest to `digits * 10 ^ exponent`. Where the exponent alone
    decides, the power is not computed. -/
def Number.ofDecimal (negative : Bool) (digits : Nat) (exponent : Int) : Number :=
  let power := exponent + (Nat.toDigits 10 digits).length
  if digits = 0 ∨ power ≤ underflowPower then .zero negative
  else if overflowPower < power then .infinite negative
  else if 0 ≤ exponent then .ofRatio negative (digits * tenPow exponent.toNat) 1
  else .ofRatio negative digits (tenPow (-exponent).toNat)

/-- A text without the sign in front of it, and whether that is a minus. -/
def takeSign : List Char → Bool × List Char
  | '-' :: rest => (true, rest)
  | '+' :: rest => (false, rest)
  | rest => (false, rest)

/-- The exponent that a text is: none at all, or `e`, a sign and digits. -/
def readExponent? : List Char → Option Int
  | [] => some 0
  | e :: rest =>
    let (negative, digits) := takeSign rest
    if (e == 'e' || e == 'E') && isDigits digits then
      some (if negative then -(digitsValue digits : Int) else digitsValue digits)
    else none

/-- What follows the whole part of a decimal: the digits behind the point, if
    there is one, and the rest. -/
def takeFraction : List Char → List Char × List Char
  | '.' :: rest => (rest.takeWhile Char.isDigit, rest.dropWhile Char.isDigit)
  | rest => ([], rest)

/-- The number that a decimal without a sign is. It has a digit before or behind
    the point. -/
def readDecimal? (negative : Bool) (cs : List Char) : Option Number := do
  let whole := cs.takeWhile Char.isDigit
  let (fraction, rest) := takeFraction (cs.dropWhile Char.isDigit)
  let exponent ← readExponent? rest
  if (whole ++ fraction).isEmpty then none
  else some (.ofDecimal negative (digitsValue (whole ++ fraction)) (exponent - fraction.length))

/-- The number that a text is. -/
def Number.ofText? (text : String) : Option Number :=
  let (negative, cs) := takeSign text.toList
  let word := String.ofList (cs.map Char.toLower)
  if word = "inf" ∨ word = "infinity" then some (.infinite negative)
  else if word = "nan" then some .invalid
  else readDecimal? negative cs

end Portugol
