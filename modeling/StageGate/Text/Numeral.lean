/-!
# Numerals

Which texts name a number: digits, with a point among them or at an end, and an exponent, or the
name of a value that is no number or not finite. A sign may stand in front.
-/

namespace StageGate.Text

def withoutSign : List Char → List Char
  | '+' :: s => s
  | '-' :: s => s
  | s => s

def isDigits (s : List Char) : Bool := !s.isEmpty && s.all Char.isDigit

def isExponent : List Char → Bool
  | [] => true
  | c :: s => (c == 'e' || c == 'E') && isDigits (withoutSign s)

/-- There has to be a digit before the point or behind it. -/
def isDecimal (s : List Char) : Bool :=
  match s.dropWhile Char.isDigit with
  | '.' :: fraction =>
    ((s.takeWhile Char.isDigit).isEmpty.not || (fraction.takeWhile Char.isDigit).isEmpty.not) &&
      isExponent (fraction.dropWhile Char.isDigit)
  | rest => (s.takeWhile Char.isDigit).isEmpty.not && isExponent rest

def isNumeral (s : List Char) : Bool :=
  let s := withoutSign s
  ["inf", "infinity", "nan"].contains (String.ofList s).toLower || isDecimal s

example : isNumeral "+.5e-3".toList = true ∧ isNumeral "-.".toList = false := by decide +kernel

end StageGate.Text
