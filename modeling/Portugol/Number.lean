/-!
# Numbers

The numbers of the language are the 64-bit binary ones: a sign, an exponent of
eleven bits and a fraction of fifty-two. A number is given by its bits, so that
two numbers are equal exactly when no operation can tell them apart; the
equality of the language, which ignores the sign of zero and finds no equal for
what is not a number, is `Number.eq`.

Every finite number is a whole multiple of the least positive one, `2 ^ (-1074)`,
the *unit*: it has `fraction * 2 ^ shift` units (`Number.magnitude`). An
operation is computed exactly on integers and rounded once, by `ofScaled`: to the
nearest number, to the one with an even fraction when two are equally near, and
to infinity when the result is too large. To keep the integers small, a number
is counted in ones if it is whole, and else in the least power of two that its
fraction can tell (`Number.counted`).

What is not a number still has bits. An operation passes such an operand on, the
left one first, and an operation without a result, such as the difference of two
infinities, gives `invalid`.
-/

namespace Portugol

/-- The quotient rounded to the nearest integer, a half to the even one. -/
def roundDiv (num den : Nat) : Nat :=
  if den < 2 * (num % den) ∨ (2 * (num % den) = den ∧ num / den % 2 = 1) then
    num / den + 1
  else
    num / den

/-- A power of ten. -/
def tenPow (exponent : Nat) : Nat := Nat.pow 10 exponent

/-- A number of the language, given by its bits. -/
structure Number where
  /-- The sign, the exponent and the fraction, from the highest bit down. -/
  bits : UInt64
  deriving DecidableEq, Inhabited

namespace Number

/-- Whether the sign bit is set. -/
def negative (x : Number) : Bool := decide (0x8000000000000000 ≤ x.bits)

/-- The bits below the sign: they grow with the magnitude. -/
def body (x : Number) : UInt64 := x.bits &&& 0x7FFFFFFFFFFFFFFF

/-- The body of the infinite numbers: all exponent bits set and no fraction. -/
def infiniteBody : UInt64 := 0x7FF0000000000000

/-- The bit before the fraction, which all but the smallest numbers have and none
    writes down. -/
def leadingOne : UInt64 := 0x0010000000000000

/-- The number with this sign and this body. -/
def ofBody (negative : Bool) (body : UInt64) : Number :=
  ⟨body + if negative then 0x8000000000000000 else 0⟩

def isNaN (x : Number) : Bool := decide (infiniteBody < x.body)

def isInfinite (x : Number) : Bool := decide (x.body = infiniteBody)

def isFinite (x : Number) : Bool := decide (x.body < infiniteBody)

/-- Zero of either sign. -/
def isZero (x : Number) : Bool := decide (x.body = 0)

/-- The number zero with this sign. -/
def zero (negative : Bool) : Number := ofBody negative 0

/-- The infinite number with this sign. -/
def infinite (negative : Bool) : Number := ofBody negative infiniteBody

/-- What an operation gives that has no result. -/
def invalid : Number := ⟨0xFFF8000000000000⟩

/-! ## Units -/

/-- The number one has two to this power units. -/
def oneShift : Nat := 1074

/-- The bits of the fraction that are written down. -/
def written (x : Number) : UInt64 := x.body &&& 0x000FFFFFFFFFFFFF

/-- The fraction of a finite number, with its leading one. -/
def fraction (x : Number) : Nat :=
  if x.body < leadingOne then x.body.toNat else (leadingOne + x.written).toNat

/-- How often the fraction is doubled. -/
def shift (x : Number) : Nat := (x.body >>> 52).toNat - 1

/-- The magnitude of a finite number, in units. -/
def magnitude (x : Number) : Nat := x.fraction <<< x.shift

/-- The value of a finite number, in units. -/
def units (x : Number) : Int := if x.negative then -(x.magnitude : Int) else x.magnitude

/-- Whether a finite number is an integer. -/
def isWhole (x : Number) : Bool := decide (x.fraction % (1 <<< (oneShift - x.shift)) = 0)

/-- The magnitude of a finite number as a count and a scale: it has
    `count * 2 ^ scale` units. -/
def counted (x : Number) : Nat × Nat :=
  if x.isWhole then (x.fraction >>> (oneShift - x.shift), max oneShift x.shift)
  else (x.fraction, x.shift)

/-- The number nearest to `num / den * 2 ^ scale` units, provided that this is no
    less than `2 ^ scale` or that `scale` is zero. The numbers around it are
    `2 ^ shift` units apart, with the shift that makes the fraction fill its
    bits; a fraction rounded up to one bit more is the leading one of the next
    shift, and its body comes out right. -/
def ofScaled (negative : Bool) (num den scale : Nat) : Number :=
  if num = 0 then zero negative
  else
    let shift := (num / den).log2 + scale - 52
    let fraction := roundDiv (num <<< (scale - shift)) (den <<< (shift - scale))
    if 2045 < shift then infinite negative
    else ofBody negative ((UInt64.ofNat shift <<< 52) + UInt64.ofNat fraction)

/-- The number nearest to the ratio `num / den`. -/
def ofRatio (negative : Bool) (num den : Nat) : Number :=
  ofScaled negative (num <<< oneShift) den 0

/-- The number nearest to a natural number, with this sign. -/
def ofNat (negative : Bool) (n : Nat) : Number := ofScaled negative n 1 oneShift

/-- The number nearest to an integer. -/
def ofInt (n : Int) : Number := ofNat (decide (n < 0)) n.natAbs

instance (n : Nat) : OfNat Number n := ⟨ofNat false n⟩

/-! ## Order -/

/-- The position of a number among those that are numbers: equal for the two
    zeros, and beyond all others for the infinite ones. -/
def rank (x : Number) : UInt64 :=
  if x.negative then 0 - x.bits else 0x8000000000000000 + x.bits

/-- Equality of the language. -/
def eq (x y : Number) : Bool := !x.isNaN && !y.isNaN && decide (x.rank = y.rank)

def lt (x y : Number) : Bool := !x.isNaN && !y.isNaN && decide (x.rank < y.rank)

def le (x y : Number) : Bool := !x.isNaN && !y.isNaN && decide (x.rank ≤ y.rank)

/-- The position of a number among all bits: those with a sign first, from the
    largest body to the smallest, then those without. -/
def position (x : Number) : UInt64 :=
  if x.negative then ~~~x.bits else 0x8000000000000000 + x.bits

/-! ## Arithmetic -/

/-- The number with its sign bit changed. -/
protected def neg (x : Number) : Number := ofBody (!x.negative) x.body

/-- What is not a number, with the first bit of its fraction set. -/
def quiet (x : Number) : Number := ⟨x.bits ||| 0x0008000000000000⟩

/-- The operation `op` on two numbers, passing on an operand that is none. -/
def onNumbers (op : Number → Number → Number) (x y : Number) : Number :=
  if x.isNaN then x.quiet else if y.isNaN then y.quiet else op x y

/-- The sum of two numbers. An exact zero is positive unless both are negative. -/
def addNumbers (x y : Number) : Number :=
  if x.isInfinite then
    if y.isInfinite && x.negative != y.negative then invalid else x
  else if y.isInfinite then y
  else
    let (m, i) := x.counted
    let (n, j) := y.counted
    let scale := min i j
    let a := m <<< (i - scale)
    let b := n <<< (j - scale)
    if x.negative = y.negative then ofScaled x.negative (a + b) 1 scale
    else if b < a then ofScaled x.negative (a - b) 1 scale
    else if a < b then ofScaled y.negative (b - a) 1 scale
    else zero false

def mulNumbers (x y : Number) : Number :=
  let sign := x.negative != y.negative
  if x.isInfinite || y.isInfinite then
    if x.isZero || y.isZero then invalid else infinite sign
  else
    let (m, i) := x.counted
    let (n, j) := y.counted
    ofScaled sign (m * n) (1 <<< (oneShift - (i + j))) (i + j - oneShift)

/-- The quotient of two numbers. The dividend is shifted so far that the quotient
    of the counts is at least one. -/
def divNumbers (x y : Number) : Number :=
  let sign := x.negative != y.negative
  if x.isInfinite then if y.isInfinite then invalid else infinite sign
  else if y.isInfinite then zero sign
  else if y.isZero then if x.isZero then invalid else infinite sign
  else
    let (m, i) := x.counted
    let (n, j) := y.counted
    let scale := i + (oneShift - 54)
    ofScaled sign (m <<< 54) (n <<< (j - scale)) (scale - j)

/-- The remainder of the quotient cut towards zero: it has the sign of `x`, and
    no rounding is needed. -/
def remNumbers (x y : Number) : Number :=
  if x.isInfinite || y.isZero then invalid
  else if y.isInfinite then x
  else
    let (m, i) := x.counted
    let (n, j) := y.counted
    let scale := min i j
    ofScaled x.negative ((m <<< (i - scale)) % (n <<< (j - scale))) 1 scale

protected def add (x y : Number) : Number := onNumbers addNumbers x y

protected def sub (x y : Number) : Number := onNumbers (fun x y => addNumbers x y.neg) x y

protected def mul (x y : Number) : Number := onNumbers mulNumbers x y

protected def div (x y : Number) : Number := onNumbers divNumbers x y

def rem (x y : Number) : Number := onNumbers remNumbers x y

/-- The integer part, with the sign of the number. -/
def trunc (x : Number) : Number :=
  if x.isNaN then x.quiet
  else if x.isInfinite || x.isWhole then x
  else ofNat x.negative (x.fraction >>> (oneShift - x.shift))

/-- The largest integer not above the number. -/
def floor (x : Number) : Number :=
  if x.isNaN then x.quiet
  else if x.isInfinite || x.isWhole then x
  else
    let below := x.fraction >>> (oneShift - x.shift)
    ofNat x.negative (if x.negative then below + 1 else below)

instance : Neg Number := ⟨Number.neg⟩
instance : Add Number := ⟨Number.add⟩
instance : Sub Number := ⟨Number.sub⟩
instance : Mul Number := ⟨Number.mul⟩
instance : Div Number := ⟨Number.div⟩

end Number

end Portugol
