import StageGate.Timestamp.Calendar

/-!
# Points in time

A timestamp counts seconds from the start of 1970 in UTC and nanoseconds within the second. Within
a leap second the nanoseconds run on from 10^9, so a leap second sorts after the second it extends.
-/

namespace StageGate

structure Timestamp where
  seconds : Int
  nanos : Nat
deriving DecidableEq, Repr, Inhabited

namespace Timestamp

instance : Ord Timestamp := ⟨compareLex (compareOn seconds) (compareOn nanos)⟩

instance : Std.TransOrd Timestamp :=
  inferInstanceAs (Std.TransCmp (compareLex (compareOn seconds) (compareOn nanos)))

instance : Std.LawfulEqOrd Timestamp where
  eq_of_compare {a b} h := by
    have h' : compareLex (compareOn seconds) (compareOn nanos) a b = .eq := h
    rw [compareLex_eq_eq] at h'
    have h₁ : a.seconds = b.seconds := Std.LawfulEqOrd.eq_of_compare h'.1
    have h₂ : a.nanos = b.nanos := Std.LawfulEqOrd.eq_of_compare h'.2
    cases a; cases b; cases h₁; cases h₂; rfl

def nanosPerSecond : Nat := 1000000000

def ofMillis (ms : Int) : Timestamp := ⟨ms / 1000, (ms % 1000).toNat * 1000000⟩

def isLeapSecond (t : Timestamp) : Bool := nanosPerSecond ≤ t.nanos

def date (t : Timestamp) : Date := Date.ofDayNumber (Date.epochDay + t.seconds / 86400)

def secondOfDay (t : Timestamp) : Nat := (t.seconds % 86400).toNat

def years : Int × Int := (-262143, 262142)

def yearInRange (year : Int) : Bool := years.1 ≤ year && year ≤ years.2

/-- The time that a clock shows at an offset from UTC in seconds. A minute may have a second 60. -/
def ofClock? (date : Date) (hour minute second nanos : Nat) (offset : Int) : Option Timestamp :=
  if date.isValid && yearInRange date.year && hour < 24 && minute < 60 && second ≤ 60 &&
      offset.natAbs < 86400 then
    let leap := if second = 60 then nanosPerSecond else 0
    let clock : Int := hour * 3600 + minute * 60 + min second 59
    let t : Timestamp :=
      ⟨(date.dayNumber - Date.epochDay) * 86400 + clock - offset, nanos + leap⟩
    if yearInRange t.date.year then some t else none
  else none

end Timestamp

end StageGate
