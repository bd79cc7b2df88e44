import Portugol.Text.CharSet

/-!
# Blanks

The characters with the property White_Space, and what is left of a text without
them at its ends.
-/

namespace Portugol

/-- The changes of membership among the blanks. -/
def blanks : CharSet :=
  [0x9, 0xE, 0x20, 0x21, 0x85, 0x86, 0xA0, 0xA1, 0x1680, 0x1681, 0x2000, 0x200B, 0x2028, 0x202A,
   0x202F, 0x2030, 0x205F, 0x2060, 0x3000, 0x3001]

/-- Whether a character is a blank. -/
def isBlank (c : Char) : Bool := blanks.mem c

/-- Whether a text has blanks only. -/
def allBlank (cs : List Char) : Bool := cs.all isBlank

/-- The text without the blanks at its end. -/
def trimEnd (cs : List Char) : List Char := (cs.reverse.dropWhile isBlank).reverse

/-- The text without the blanks at its ends. -/
def trim (cs : List Char) : List Char := trimEnd (cs.dropWhile isBlank)

end Portugol
