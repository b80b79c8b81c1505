/-!
# The proleptic Gregorian calendar

Days are counted from the first of January of the year 0. Main statement: `dayNumber_ofDayNumber`,
the date of a day names that day.
-/

namespace StageGate

/-- A date of the calendar; `month` counts from one, and so does `day`. -/
structure Date where
  year : Int
  month : Nat
  day : Nat
deriving DecidableEq, Repr

namespace Date

def isLeap (year : Int) : Bool := year % 4 == 0 && (year % 100 != 0 || year % 400 == 0)

def monthLengths (year : Int) : List Nat :=
  [31, if isLeap year then 29 else 28, 31, 30, 31, 30, 31, 31, 30, 31, 30, 31]

/-- How many days precede the first of January of a year. -/
def daysBeforeYear (year : Int) : Int :=
  365 * year + (year - 1) / 4 - (year - 1) / 100 + (year - 1) / 400 + 1

def totalDays : List Nat → Nat
  | [] => 0
  | length :: rest => length + totalDays rest

def daysBeforeMonth (year : Int) (month : Nat) : Nat :=
  totalDays ((monthLengths year).take (month - 1))

def isValid (d : Date) : Bool :=
  1 ≤ d.month && 1 ≤ d.day &&
    match (monthLengths d.year)[d.month - 1]? with
    | some length => d.day ≤ length
    | none => false

def dayNumber (d : Date) : Int :=
  daysBeforeYear d.year + daysBeforeMonth d.year d.month + (d.day - 1 : Int)

def epochDay : Int := daysBeforeYear 1970

/-- The year that a day lies in: a guess from the mean length of a year is off by one at most. -/
def yearOf (n : Int) : Int :=
  let guess := n * 400 / 146097
  if daysBeforeYear (guess + 1) ≤ n then guess + 1
  else if daysBeforeYear guess ≤ n then guess
  else guess - 1

/-- The month and the day within it of the day that comes `k` days after the first of `month`, where
`lengths` are the lengths of this month and the later ones. -/
def placeInMonths : List Nat → Nat → Nat → Nat × Nat
  | length :: next :: rest, month, k =>
    if k < length then (month, k + 1) else placeInMonths (next :: rest) (month + 1) (k - length)
  | _, month, k => (month, k + 1)

def ofDayNumber (n : Int) : Date :=
  let year := yearOf n
  let place := placeInMonths (monthLengths year) 1 (n - daysBeforeYear year).toNat
  ⟨year, place.1, place.2⟩

theorem daysBeforeYear_yearOf_le (n : Int) : daysBeforeYear (yearOf n) ≤ n := by
  simp only [yearOf]
  split
  · assumption
  · split
    · assumption
    · simp only [daysBeforeYear] at *
      omega

theorem lt_daysBeforeYear_yearOf_succ (n : Int) : n < daysBeforeYear (yearOf n + 1) := by
  simp only [yearOf]
  split
  · simp only [daysBeforeYear] at *
    omega
  · split
    · omega
    · have : n * 400 / 146097 - 1 + 1 = n * 400 / 146097 := by omega
      rw [this]
      omega

theorem totalDays_placeInMonths (lengths : List Nat) (month k : Nat) (hm : lengths ≠ []) :
    let place := placeInMonths lengths month k
    month ≤ place.1 ∧ 1 ≤ place.2 ∧
      totalDays (lengths.take (place.1 - month)) + (place.2 - 1) = k := by
  induction lengths generalizing month k with
  | nil => exact absurd rfl hm
  | cons length rest ih =>
    cases rest with
    | nil => simp [placeInMonths, totalDays]
    | cons next rest =>
      simp only [placeInMonths]
      split
      · simp [totalDays]
      · next hk =>
        obtain ⟨h₁, h₂, h₃⟩ := ih (month + 1) (k - length) (by simp)
        refine ⟨by omega, h₂, ?_⟩
        rw [show (placeInMonths (next :: rest) (month + 1) (k - length)).1 - month =
          (placeInMonths (next :: rest) (month + 1) (k - length)).1 - (month + 1) + 1 by omega]
        simp only [List.take_succ_cons, totalDays]
        omega

theorem dayNumber_ofDayNumber (n : Int) : (ofDayNumber n).dayNumber = n := by
  have hy := daysBeforeYear_yearOf_le n
  obtain ⟨-, h₂, h₃⟩ := totalDays_placeInMonths (monthLengths (yearOf n)) 1
    (n - daysBeforeYear (yearOf n)).toNat (by simp [monthLengths])
  simp only [dayNumber, ofDayNumber, daysBeforeMonth]
  omega

end Date

end StageGate
