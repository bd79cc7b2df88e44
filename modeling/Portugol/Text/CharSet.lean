/-!
# Sets of characters

A set of characters is given by the code points where membership changes, in
increasing order: the first one is the first member, the second one the first
character behind it that is none, and so on. A character is a member if the
number of changes up to it is odd.
-/

namespace Portugol

/-- The code points where membership in a set of characters changes. -/
abbrev CharSet := List Nat

namespace CharSet

/-- Whether `n` is a member, given whether the code points before the first
    change are. -/
def memberFrom (inside : Bool) (n : Nat) : CharSet → Bool
  | [] => inside
  | change :: rest => if n < change then inside else memberFrom (!inside) n rest

/-- Whether a character is a member. -/
def mem (set : CharSet) (c : Char) : Bool := memberFrom false c.toNat set

end CharSet

end Portugol
