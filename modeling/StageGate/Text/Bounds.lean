/-!
# Sets of characters by their bounds

A property of characters is a table: the code points at which membership begins and ends, in turn
and in rising order. A character has the property when an odd number of them do not exceed it.
-/

namespace StageGate.Text

/-- Every bound that is passed is a change of sides. -/
def within : List Nat → Char → Bool
  | [], _ => false
  | b :: bounds, c => if c.toNat < b then false else !within bounds c

end StageGate.Text
