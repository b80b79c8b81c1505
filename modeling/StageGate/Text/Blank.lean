/-!
# Blank characters

The characters with the Unicode property `White_Space`, and texts that are blank at an end.
-/

namespace StageGate.Text

def blankRanges : List (Nat × Nat) :=
  [(0x09, 0x0d), (0x20, 0x20), (0x85, 0x85), (0xa0, 0xa0), (0x1680, 0x1680), (0x2000, 0x200a),
    (0x2028, 0x2029), (0x202f, 0x202f), (0x205f, 0x205f), (0x3000, 0x3000)]

def isBlank (c : Char) : Bool :=
  blankRanges.any fun r => r.1 ≤ c.toNat && c.toNat ≤ r.2

/-- A text of which nothing is left once its blank ends are cut. -/
def allBlank (s : String) : Bool := s.toList.all isBlank

def trimStart (s : List Char) : List Char := s.dropWhile isBlank

end StageGate.Text
