import StageGate.Json.Basic
import StageGate.Text.Digits

/-!
# Reading JSON

The reader takes exactly the texts of the standard: blanks are the four of JSON, numbers have no
leading zero, strings hold no raw control character, and nothing follows the value. Depth is not
limited. The fuel of the recursion is computed from the text and never runs out on it.
-/

namespace StageGate.Json

open Text.Digits (hexValue)

def isBlank (c : Char) : Bool := c == ' ' || c == '\t' || c == '\n' || c == '\r'

def skipBlanks (s : List Char) : List Char := s.dropWhile isBlank

-- ---------------------------------------------------------------------------
-- Numbers
-- ---------------------------------------------------------------------------

/-- The digits at the front and what follows them; there has to be one. -/
def readDigits (s : List Char) : Option (List Char × List Char) :=
  let ds := s.takeWhile Char.isDigit
  if ds.isEmpty then none else some (ds, s.dropWhile Char.isDigit)

/-- Digits without a leading zero, unless the zero stands alone. -/
def readWhole (s : List Char) : Option (List Char × List Char) :=
  match readDigits s with
  | some ('0' :: _ :: _, _) => none
  | r => r

def readFraction : List Char → Option (List Char × List Char)
  | '.' :: s => (readDigits s).map fun r => ('.' :: r.1, r.2)
  | s => some ([], s)

def readExponent : List Char → Option (List Char × List Char)
  | e :: s =>
    if e = 'e' ∨ e = 'E' then
      match s with
      | '+' :: s => (readDigits s).map fun r => (e :: '+' :: r.1, r.2)
      | '-' :: s => (readDigits s).map fun r => (e :: '-' :: r.1, r.2)
      | s => (readDigits s).map fun r => (e :: r.1, r.2)
    else some ([], e :: s)
  | [] => some ([], [])

def readUnsigned (s : List Char) : Option ((List Char × List Char) × List Char) := do
  let (whole, s) ← readWhole s
  let (fraction, s) ← readFraction s
  let (exponent, s) ← readExponent s
  some ((whole, fraction ++ exponent), s)

def readNumber (s : List Char) : Option (Number × List Char) :=
  match s with
  | '-' :: s => (readUnsigned s).map fun ((whole, tail), rest) =>
    if tail = [] ∧ whole ≠ ['0'] then (.integer (-(Nat.ofDigitChars 10 whole 0 : Int)), rest)
    else (.literal ('-' :: whole ++ tail), rest)
  | s => (readUnsigned s).map fun ((whole, tail), rest) =>
    if tail = [] then (.integer (Nat.ofDigitChars 10 whole 0), rest)
    else (.literal (whole ++ tail), rest)

-- ---------------------------------------------------------------------------
-- Strings
-- ---------------------------------------------------------------------------

def codeUnit (a b c d : Char) : Option Nat := do
  some ((((← hexValue a) * 16 + (← hexValue b)) * 16 + (← hexValue c)) * 16 + (← hexValue d))

def isHighHalf (n : Nat) : Bool := 0xd800 ≤ n && n < 0xdc00

def isLowHalf (n : Nat) : Bool := 0xdc00 ≤ n && n < 0xe000

/-- The character that two halves of a surrogate pair name. -/
def joinHalves (high low : Nat) : Char :=
  Char.ofNat (0x10000 + (high - 0xd800) * 0x400 + (low - 0xdc00))

def unescape (c : Char) : Option Char :=
  match c with
  | '"' => some '"'
  | '\\' => some '\\'
  | '/' => some '/'
  | 'b' => some '\x08'
  | 'f' => some '\x0c'
  | 'n' => some '\n'
  | 'r' => some '\r'
  | 't' => some '\t'
  | _ => none

/-- Reads on to the closing quote. `seen` are the characters before, last one first, or nothing once
an escape named only half of a pair. -/
def readChars (seen : Option (List Char)) : List Char → Option (Option (List Char) × List Char)
  | [] => none
  | '"' :: s => some (seen.map List.reverse, s)
  | '\\' :: 'u' :: a :: b :: c :: d :: '\\' :: 'u' :: a' :: b' :: c' :: d' :: s =>
    match codeUnit a b c d, codeUnit a' b' c' d' with
    | some n, some m =>
      if isHighHalf n then
        if isLowHalf m then readChars (seen.map (joinHalves n m :: ·)) s
        else readChars none ('\\' :: 'u' :: a' :: b' :: c' :: d' :: s)
      else
        readChars (if isLowHalf n then none else seen.map (Char.ofNat n :: ·))
          ('\\' :: 'u' :: a' :: b' :: c' :: d' :: s)
    | _, _ => none
  | '\\' :: 'u' :: a :: b :: c :: d :: s =>
    match codeUnit a b c d with
    | some n =>
      readChars (if isHighHalf n || isLowHalf n then none else seen.map (Char.ofNat n :: ·)) s
    | none => none
  | '\\' :: e :: s =>
    match unescape e with
    | some c => readChars (seen.map (c :: ·)) s
    | none => none
  | c :: s => if c.toNat < 0x20 then none else readChars (seen.map (c :: ·)) s

/-- The text between the quotes, nothing if it names no text, and what follows. -/
def readString (s : List Char) : Option (Option String × List Char) :=
  (readChars (some []) s).map fun r => (r.1.map String.ofList, r.2)

-- ---------------------------------------------------------------------------
-- Values
-- ---------------------------------------------------------------------------

/-- Members whose keys name texts, or nothing if one does not. -/
def addMember (key : Option String) (value : Json) (rest : Option (List (String × Json))) :
    Option (List (String × Json)) := do
  some ((← key, value) :: (← rest))

mutual

def readValue : Nat → List Char → Option (Json × List Char)
  | 0, _ => none
  | fuel + 1, s =>
    match skipBlanks s with
    | 'n' :: 'u' :: 'l' :: 'l' :: s => some (.null, s)
    | 't' :: 'r' :: 'u' :: 'e' :: s => some (.bool true, s)
    | 'f' :: 'a' :: 'l' :: 's' :: 'e' :: s => some (.bool false, s)
    | '"' :: s => (readString s).map fun r => (r.1.elim .unreadable .string, r.2)
    | '[' :: s =>
      match skipBlanks s with
      | ']' :: s => some (.array [], s)
      | s => (readItems fuel s).map fun r => (.array r.1, r.2)
    | '{' :: s =>
      match skipBlanks s with
      | '}' :: s => some (.object [], s)
      | s => (readMembers fuel s).map fun r => (r.1.elim .unreadable .object, r.2)
    | s => (readNumber s).map fun r => (.number r.1, r.2)

def readItems : Nat → List Char → Option (List Json × List Char)
  | 0, _ => none
  | fuel + 1, s =>
    match readValue fuel s with
    | none => none
    | some (item, s) =>
      match skipBlanks s with
      | ',' :: s => (readItems fuel s).map fun r => (item :: r.1, r.2)
      | ']' :: s => some ([item], s)
      | _ => none

def readMembers : Nat → List Char → Option (Option (List (String × Json)) × List Char)
  | 0, _ => none
  | fuel + 1, s =>
    match skipBlanks s with
    | '"' :: s =>
      match readString s with
      | none => none
      | some (key, s) =>
        match skipBlanks s with
        | ':' :: s =>
          match readValue fuel s with
          | none => none
          | some (value, s) =>
            match skipBlanks s with
            | ',' :: s => (readMembers fuel s).map fun r => (addMember key value r.1, r.2)
            | '}' :: s => some (addMember key value (some []), s)
            | _ => none
        | _ => none
    | _ => none

end

def read (s : List Char) : Option Json :=
  match readValue (2 * s.length + 2) s with
  | some (j, rest) => if skipBlanks rest = [] then some j else none
  | none => none

def parse? (s : String) : Option Json := read s.toList

end StageGate.Json
