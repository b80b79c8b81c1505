import StageGate.Pattern.Basic
import StageGate.Text.Bytes
import StageGate.Text.Numeral
import StageGate.Text.Quoted

/-!
# Log filters

A filter is a list of directives with commas between them. A directive names a target, a span in
brackets or both, and may end in a level; a level alone is a target as well. A span may hold one
field in braces, whose value is a number or a pattern.

A directive is divided without the blanks at its ends. Its level and its field are then cut from it
with these blanks, at the places counted in bytes that they had without them: blanks in front shift
them to the left, and blanks at the end belong to the level.
-/

namespace StageGate.LogFilter

/-- Nothing, a name in any case, or the number of a level. -/
def isLevel (s : List Char) : Bool :=
  let digits := match s with
    | '+' :: s => s
    | s => s
  ["", "trace", "debug", "info", "warn", "error", "off"].contains (String.ofList s).toLower ||
    (Text.isDigits digits && Nat.ofDigitChars 10 digits 0 ≤ 5)

/-- A name, which may be empty, and what it has to be equal to. Anything behind a second equals sign
is passed over. -/
def isField (s : List Char) : Bool :=
  match s.dropWhile (· != '=') with
  | _ :: value =>
    let value := value.takeWhile (· != '=')
    Text.isNumeral value || isPattern value
  | [] => true

structure Directive where
  given : List Char

namespace Directive

def trimmed (d : Directive) : List Char :=
  (Text.trimStart (Text.trimStart d.given).reverse).reverse

/-- What is given from the place on at which `rest` begins in the trimmed directive. -/
def from? (d : Directive) (rest : List Char) : Option (List Char) :=
  (Text.splitBytes? (Text.byteSize d.trimmed - Text.byteSize rest) d.given).map (·.2)

def hasLevel (d : Directive) (rest : List Char) : Bool := (d.from? rest).any isLevel

/-- Whether a field is given at the place of `rest`, as long as it is there up to its brace. -/
def hasField (d : Directive) (rest : List Char) : Bool :=
  let size := Text.byteSize (rest.takeWhile (· != '\x7d'))
  size != 0 && ((d.from? rest).bind (Text.splitBytes? size)).any fun r => isField r.1

def isTail (d : Directive) : List Char → Bool
  | [] => true
  | '=' :: s => d.hasLevel s
  | _ => false

def isSpan (d : Directive) (s : List Char) : Bool :=
  match s.dropWhile fun c => c != ']' && c != '\x7b' with
  | ']' :: s => d.isTail s
  | '\x7b' :: s =>
    match s.dropWhile (· != '\x7d') with
    | '\x7d' :: ']' :: rest => d.hasField s && d.isTail rest
    | _ => false
  | _ => false

def startsTarget (c : Char) : Bool :=
  c == '-' || c == ':' || c == '_' || Text.isAlphanumeric c

def isValid (d : Directive) : Bool :=
  match d.trimmed with
  | '[' :: s => d.isSpan s
  | c :: s =>
    startsTarget c &&
      match s.dropWhile fun c => c != '=' && c != '[' with
      | '=' :: s => d.hasLevel s
      | '[' :: s => d.isSpan s
      | _ => true
  | [] => false

end Directive

/-- Empty directives are passed over. -/
def isValid (s : String) : Bool :=
  ((s.splitOn ",").filter (· ≠ "")).all fun d => Directive.isValid ⟨d.toList⟩

def errorMessage (text : String) : String := "observability error: " ++ text

def invalidMessage (filter : String) : String :=
  errorMessage ("invalid log filter " ++ Text.quoted filter ++ ": invalid filter directive")

end StageGate.LogFilter
