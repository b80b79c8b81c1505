/-!
# Places counted in bytes

A place in a text can be given by the number of bytes before it, as the text is stored. Such a
number may fall inside a character, and then it is no place.
-/

namespace StageGate.Text

def byteSize : List Char → Nat
  | [] => 0
  | c :: s => c.utf8Size + byteSize s

/-- The text up to the place behind `n` bytes and the text from there on. -/
def splitBytes? : Nat → List Char → Option (List Char × List Char)
  | 0, s => some ([], s)
  | _, [] => none
  | n, c :: s =>
    if c.utf8Size ≤ n then (splitBytes? (n - c.utf8Size) s).map fun r => (c :: r.1, r.2) else none

end StageGate.Text
