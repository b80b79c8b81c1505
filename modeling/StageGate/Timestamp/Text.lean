import StageGate.Text.Blank
import StageGate.Text.Digits
import StageGate.Timestamp.Basic

/-!
# The written form of a timestamp

A timestamp is written by RFC 3339 in UTC with the fewest of 0, 3, 6 or 9 digits of a fraction. The
reader is more lenient than the standard: blanks may stand between the parts, a field may have fewer
digits, a year may have a sign, the date may end in a space, and the zone may be `UTC`.
-/

namespace StageGate.Timestamp

open Text

-- ---------------------------------------------------------------------------
-- Writing
-- ---------------------------------------------------------------------------

/-- Four digits, with a sign where a year needs more of them or lies before the year 0. -/
def writeYear (year : Int) : List Char :=
  let digits := Digits.padded 4 year.natAbs
  if year < 0 then '-' :: digits
  else if year ≤ 9999 then digits
  else '+' :: digits

def writeFraction (nanos : Nat) : List Char :=
  if nanos = 0 then []
  else if nanos % 1000000 = 0 then '.' :: Digits.padded 3 (nanos / 1000000)
  else if nanos % 1000 = 0 then '.' :: Digits.padded 6 (nanos / 1000)
  else '.' :: Digits.padded 9 nanos

def write (t : Timestamp) : List Char :=
  let clock := t.secondOfDay
  let leap := t.isLeapSecond
  writeYear t.date.year ++ '-' :: Digits.padded 2 t.date.month ++ '-' :: Digits.padded 2 t.date.day
    ++ 'T' :: Digits.padded 2 (clock / 3600) ++ ':' :: Digits.padded 2 (clock / 60 % 60)
    ++ ':' :: Digits.padded 2 (clock % 60 + if leap then 1 else 0)
    ++ writeFraction (if leap then t.nanos - nanosPerSecond else t.nanos) ++ ['Z']

def render (t : Timestamp) : String := String.ofList t.write

-- ---------------------------------------------------------------------------
-- Reading
-- ---------------------------------------------------------------------------

def readField (s : List Char) : Option (Nat × List Char) := Digits.read 2 (trimStart s)

/-- A year of at most four digits, or of any number of them after a sign. -/
def readYear (s : List Char) : Option (Int × List Char) :=
  match trimStart s with
  | '-' :: s => (Digits.read s.length s).map fun r => (-(r.1 : Int), r.2)
  | '+' :: s => (Digits.read s.length s).map fun r => ((r.1 : Int), r.2)
  | s => (Digits.read 4 s).map fun r => ((r.1 : Int), r.2)

def readMark (mark : Char) (s : List Char) : Option (List Char) :=
  match trimStart s with
  | c :: s => if c = mark then some s else none
  | [] => none

def readSeparator : List Char → Option (List Char)
  | 'T' :: s | 't' :: s | ' ' :: s => some s
  | _ => none

/-- The nanoseconds of a fraction, if there is one. Digits after the ninth are passed over. -/
def readFraction : List Char → Option (Nat × List Char)
  | '.' :: s => (Digits.read 9 s).map fun r =>
    (r.1 * Nat.pow 10 (9 - (Digits.run 9 s).length), r.2.dropWhile Char.isDigit)
  | s => some (0, s)

/-- The hours and minutes of an offset, with colons or blanks between them or nothing. -/
def readOffset (s : List Char) : Option (Nat × List Char) := do
  let two (s : List Char) : Option (Nat × List Char) :=
    if (Digits.run 2 s).length = 2 then Digits.read 2 s else none
  let (hours, s) ← two s
  let (minutes, s) ← two (s.dropWhile fun c => c == ':' || isBlank c)
  if minutes < 60 then some (hours * 3600 + minutes * 60, s) else none

def readZone (s : List Char) : Option (Int × List Char) :=
  match trimStart s with
  | 'Z' :: s | 'z' :: s => some (0, s)
  | '+' :: s => (readOffset s).map fun r => ((r.1 : Int), r.2)
  | '-' :: s | '\u2212' :: s => (readOffset s).map fun r => (-(r.1 : Int), r.2)
  | u :: t :: c :: s =>
    if u.toUpper = 'U' ∧ t.toUpper = 'T' ∧ c.toUpper = 'C' then some (0, s) else none
  | _ => none

def read (s : List Char) : Option Timestamp := do
  let (year, s) ← readYear s
  let (month, s) ← readField (← readMark '-' s)
  let (day, s) ← readField (← readMark '-' s)
  let (hour, s) ← readField (← readSeparator s)
  let (minute, s) ← readField (← readMark ':' s)
  let (second, s) ← readField (← readMark ':' s)
  let (nanos, s) ← readFraction s
  let (offset, s) ← readZone s
  if trimStart s = [] then ofClock? ⟨year, month, day⟩ hour minute second nanos offset else none

def parse? (s : String) : Option Timestamp := read s.toList

end StageGate.Timestamp
