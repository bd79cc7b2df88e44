import Portugol.Dict
import Portugol.Fault
import Portugol.Number.Printer

/-!
# Values

A value is a number, a text, a truth value or an array. There is nothing like a
missing value: to read what was never written is a fault.

Arrays are sparse, and any scalar is a key. Keys are ordered by their type,
numbers first and truth values last, and then by their value: numbers as they
are laid out (`Number.position`), texts by their characters. Zero has no sign
when it is a key.
-/

namespace Portugol

/-- A key of an array. -/
inductive ArrayKey
  | number (n : Number)
  | text (s : String)
  | logical (b : Bool)
  deriving DecidableEq, Inhabited

namespace ArrayKey

protected def compare : ArrayKey → ArrayKey → Ordering
  | number a, number b => compare a.position b.position
  | number _, _ => .lt
  | _, number _ => .gt
  | text a, text b => compare a b
  | text _, _ => .lt
  | _, text _ => .gt
  | logical a, logical b => compare a b

instance : Ord ArrayKey := ⟨ArrayKey.compare⟩

/-- The key of a number. -/
def ofNumber (n : Number) : ArrayKey := number (if n.isZero then .zero false else n)

end ArrayKey

/-- A truth value as programs write and print it. -/
def logicalText (b : Bool) : String := if b then "VERDADEIRO" else "FALSO"

/-- The key as it is printed: texts have quotes. -/
def ArrayKey.display : ArrayKey → String
  | number n => n.displayText
  | text s => s!"'{s}'"
  | logical b => logicalText b

/-- A value. -/
inductive Value
  | number (n : Number)
  | text (s : String)
  | logical (b : Bool)
  | array (elements : List (ArrayKey × Value))
  deriving Inhabited

namespace Value

/-- The type of a value as messages call it. -/
def typeName : Value → String
  | number _ => "número"
  | text _ => "texto"
  | logical _ => "lógico"
  | array _ => "vetor"

def number? : Value → Option Number
  | number n => some n
  | _ => none

def logical? : Value → Option Bool
  | logical b => some b
  | _ => none

/-- The key that a value is as an index. Arrays are no keys. -/
def toKey : Value → Except Fault ArrayKey
  | number n => .ok (.ofNumber n)
  | text s => .ok (.text s)
  | logical b => .ok (.logical b)
  | array elements => .error { cause := .invalidIndex (array elements).typeName }

mutual

/-- The value as it is printed. -/
def display : Value → String
  | number n => n.displayText
  | text s => s
  | logical b => logicalText b
  | array elements => "\x7b" ++ displayElements elements ++ "\x7d"

/-- The elements of an array with commas between them. -/
def displayElements : List (ArrayKey × Value) → String
  | [] => ""
  | [(key, value)] => key.display ++ ": " ++ value.display
  | (key, value) :: second :: rest =>
    key.display ++ ": " ++ value.display ++ ", " ++ displayElements (second :: rest)

end

mutual

/-- Equality of the language. Values of different types differ, and arrays are
    equal if they have the same keys with equal values. -/
def eq : Value → Value → Bool
  | number a, number b => a.eq b
  | text a, text b => a == b
  | logical a, logical b => a == b
  | array a, array b => eqElements a b
  | _, _ => false

def eqElements : List (ArrayKey × Value) → List (ArrayKey × Value) → Bool
  | [], [] => true
  | (key, value) :: rest, (key', value') :: rest' =>
    key == key' && value.eq value' && eqElements rest rest'
  | _, _ => false

end

end Value

end Portugol
