import Portugol.Number

/-!
# The shortest decimal of a number

A decimal reads back as a number if it lies in the interval of all reals that
round to it, whose ends belong to it when the fraction is even. Among these
decimals, `Number.shortest` is one with the fewest digits, and of those the
nearest to the number, the larger on a tie.

It is found on the grids of the multiples of a power of ten, from the coarsest
one down: if a grid has a point in the interval, then one of the two points
around the number itself is in it.
-/

namespace Portugol

/-- The decimal `digits * 10 ^ exponent`. -/
structure Decimal where
  digits : Nat
  exponent : Int
  deriving DecidableEq, Inhabited

namespace Decimal

/-- The digits as they are written, without zeros at the end. -/
def text (d : Decimal) : List Char :=
  ((Nat.toDigits 10 d.digits).reverse.dropWhile (· == '0')).reverse

/-- The power of ten of the last digit of `text`. -/
def scale (d : Decimal) : Int :=
  d.exponent + ((Nat.toDigits 10 d.digits).length - d.text.length : Nat)

end Decimal

namespace Number

/-- The point around `x` on the grid of multiples of `10 ^ k` that reads back as
    `x`, divided by `10 ^ k`. Everything is counted in quarters of the distance
    between the numbers around `x`: the interval reaches half this distance up,
    and down unless the numbers below are twice as dense. -/
def onGrid (x : Number) (k : Int) : Option Nat :=
  let power : Int := (x.shift : Int) - (oneShift + 2 : Nat)
  let times := tenPow (-k).toNat <<< power.toNat
  let cell := tenPow k.toNat <<< (-power).toNat
  let value := 4 * x.fraction * times
  let low := (4 * x.fraction - if x.written = 0 ∧ 0 < x.shift then 1 else 2) * times
  let high := (4 * x.fraction + 2) * times
  let point := value / cell
  let inside (p : Nat) : Bool :=
    if x.fraction % 2 = 0 then decide (low ≤ p * cell ∧ p * cell ≤ high)
    else decide (low < p * cell ∧ p * cell < high)
  if inside point then
    if inside (point + 1) && decide (cell ≤ 2 * (value % cell)) then some (point + 1) else some point
  else if inside (point + 1) then some (point + 1)
  else none

/-- The power of ten of the first digit of a finite number that is not zero. -/
def leadingPower (x : Number) : Int :=
  let num := x.fraction <<< (x.shift - oneShift)
  let den := 1 <<< (oneShift - x.shift)
  if den ≤ num then ((Nat.toDigits 10 (num / den)).length : Int) - 1
  else -((Nat.toDigits 10 (den / num)).length : Int)

/-- The shortest decimal that reads back as the magnitude of a finite number
    that is not zero. Seventeen digits are always enough. -/
def shortest (x : Number) : Decimal :=
  let power := x.leadingPower
  ((List.range 17).findSome? fun n =>
    (x.onGrid (power - (n : Nat))).map (Decimal.mk · (power - n))).getD default

end Number

end Portugol
