import Mathlib.Algebra.Group.Nat.Defs
import StageGate.Timestamp.Text

/-!
# A timestamp that is written can be read

The date of a day is one of the calendar, so the clock that is written for a time shows that time.
Main statement: `parse?_render`, for the times of the years 0 to 9999 outside of leap seconds. Others
are written as well, but a year of more digits or a leap second takes other forms.
-/

namespace StageGate

namespace Date

theorem totalDays_monthLengths (year : Int) :
    (totalDays (monthLengths year) : Int) = daysBeforeYear (year + 1) - daysBeforeYear year := by
  have hleap : isLeap year = true ↔ year % 4 = 0 ∧ (year % 100 ≠ 0 ∨ year % 400 = 0) := by
    simp [isLeap]
  by_cases h : isLeap year = true
  · have hyear := hleap.mp h
    simp only [monthLengths, totalDays, daysBeforeYear, if_pos h]
    omega
  · have hyear := mt hleap.mpr h
    simp only [monthLengths, totalDays, daysBeforeYear, if_neg h]
    omega

theorem placeInMonths_within (lengths : List Nat) (month : Nat) {k : Nat}
    (h : k < totalDays lengths) : ∃ length,
      lengths[(placeInMonths lengths month k).1 - month]? = some length ∧
        (placeInMonths lengths month k).2 ≤ length := by
  induction lengths generalizing month k with
  | nil => simp [totalDays] at h
  | cons length rest ih =>
    cases rest with
    | nil =>
      simp only [totalDays, Nat.add_zero] at h
      exact ⟨length, by simp [placeInMonths], h⟩
    | cons next rest =>
      rw [totalDays] at h
      rw [placeInMonths]
      split
      · next hk => exact ⟨length, by simp, hk⟩
      · next hk =>
        obtain ⟨found, hfound, hwithin⟩ := ih (month + 1) (k := k - length) (by omega)
        obtain ⟨hmonth, -, -⟩ :=
          totalDays_placeInMonths (next :: rest) (month + 1) (k - length) (by simp)
        refine ⟨found, ?_, hwithin⟩
        rw [show (placeInMonths (next :: rest) (month + 1) (k - length)).1 - month =
          (placeInMonths (next :: rest) (month + 1) (k - length)).1 - (month + 1) + 1 by omega,
          List.getElem?_cons_succ]
        exact hfound

theorem isValid_ofDayNumber (n : Int) : (ofDayNumber n).isValid = true := by
  have hlow := daysBeforeYear_yearOf_le n
  have hhigh := lt_daysBeforeYear_yearOf_succ n
  have htotal := totalDays_monthLengths (yearOf n)
  obtain ⟨length, hlength, hday⟩ := placeInMonths_within (monthLengths (yearOf n)) 1
    (k := (n - daysBeforeYear (yearOf n)).toNat) (by omega)
  obtain ⟨hmonth, hfirst, -⟩ := totalDays_placeInMonths (monthLengths (yearOf n)) 1
    (n - daysBeforeYear (yearOf n)).toNat (by simp [monthLengths])
  simp only [isValid, ofDayNumber, hlength]
  simp [hmonth, hfirst, hday]

theorem lt_of_isValid {d : Date} (h : d.isValid = true) : d.month < 100 ∧ d.day < 100 := by
  unfold isValid at h
  split at h
  · next length hlength =>
    simp only [Bool.and_eq_true, decide_eq_true_eq] at h
    have hmem : length ∈ monthLengths d.year := List.mem_of_getElem? hlength
    have hmonth := (List.getElem?_eq_some_iff.mp hlength).1
    have hbound : length ≤ 31 := by
      unfold monthLengths at hmem
      split at hmem <;> simp at hmem <;> omega
    simp only [monthLengths, List.length_cons, List.length_nil] at hmonth
    omega
  · simp at h

end Date

namespace Timestamp

open Text

-- ---------------------------------------------------------------------------
-- Digits
-- ---------------------------------------------------------------------------

theorem length_padded {width n : Nat} (hw : 0 < width) (h : n < 10 ^ width) :
    (Digits.padded width n).length = width := by
  have hlength := (Nat.length_toDigits_le_iff (by decide) hw).mpr h
  rw [Digits.padded, List.length_append, List.length_replicate]
  omega

theorem isBlank_of_isDigit {c : Char} (h : c.isDigit = true) : isBlank c = false := by
  simp only [Char.isDigit, Bool.and_eq_true, decide_eq_true_eq] at h
  have hlow : 48 ≤ c.toNat := h.1
  have hhigh : c.toNat ≤ 57 := h.2
  simp [isBlank, blankRanges]
  omega

theorem run_append_of_le {most : Nat} {ds : List Char} (hd : ∀ c ∈ ds, c.isDigit = true)
    (hlength : ds.length ≤ most) {c : Char} (hc : c.isDigit = false) (rest : List Char) :
    Digits.run most (ds ++ c :: rest) = ds := by
  have hrest : ((c :: rest).take (most - ds.length)).takeWhile Char.isDigit = [] := by
    cases most - ds.length <;> simp [hc]
  rw [Digits.run, List.take_append, List.take_of_length_le hlength,
    List.takeWhile_append_of_pos hd, hrest, List.append_nil]

theorem padded_cons (width n : Nat) : ∃ c ds, Digits.padded width n = c :: ds ∧
    isBlank c = false ∧ c ≠ '-' ∧ c ≠ '+' := by
  obtain ⟨c, ds, hds⟩ : ∃ c ds, Digits.padded width n = c :: ds :=
    List.exists_cons_of_ne_nil (by simp [Digits.padded, Nat.toDigits_ne_nil])
  have hc : c.isDigit = true := Digits.isDigit_of_mem_padded (hds ▸ List.mem_cons_self)
  refine ⟨c, ds, hds, ?_, ?_, ?_⟩
  · exact isBlank_of_isDigit hc
  · rintro rfl
    cases hc
  · rintro rfl
    cases hc

theorem trimStart_padded (width n : Nat) (rest : List Char) :
    trimStart (Digits.padded width n ++ rest) = Digits.padded width n ++ rest := by
  obtain ⟨c, ds, hds, hblank, -⟩ := padded_cons width n
  rw [hds]
  simp [trimStart, hblank]

theorem readField_padded {n : Nat} (h : n < 100) (rest : List Char) :
    readField (Digits.padded 2 n ++ rest) = some (n, rest) := by
  rw [readField, trimStart_padded]
  exact Digits.read_padded (length_padded (by decide) h) (by decide) rest

theorem readMark_cons {mark : Char} (h : isBlank mark = false) (rest : List Char) :
    readMark mark (mark :: rest) = some rest := by
  simp [readMark, trimStart, h]

theorem readYear_write {year : Int} (hlow : 0 ≤ year) (hhigh : year ≤ 9999) (rest : List Char) :
    readYear (writeYear year ++ rest) = some (year, rest) := by
  have hread : Digits.read 4 (Digits.padded 4 year.natAbs ++ rest) = some (year.natAbs, rest) :=
    Digits.read_padded (length_padded (by decide) (by omega)) (by decide) rest
  obtain ⟨c, ds, hds, -, hminus, hplus⟩ := padded_cons 4 year.natAbs
  rw [writeYear, if_neg (by omega), if_pos hhigh, readYear, trimStart_padded]
  rw [hds] at hread ⊢
  split
  · next h =>
    cases h
    exact absurd rfl hminus
  · next h =>
    cases h
    exact absurd rfl hplus
  · rw [hread]
    simp [Int.natAbs_of_nonneg hlow]

/-- A fraction of fewer than nine digits is read with as many zeros behind it. -/
theorem readFraction_padded {width n : Nat} (hw : 0 < width) (hmost : width ≤ 9)
    (h : n < 10 ^ width) {c : Char} (hc : c.isDigit = false) (rest : List Char) :
    readFraction ('.' :: (Digits.padded width n ++ c :: rest)) =
      some (n * 10 ^ (9 - width), c :: rest) := by
  have hlength := length_padded hw h
  have hrun : Digits.run 9 (Digits.padded width n ++ c :: rest) = Digits.padded width n :=
    run_append_of_le (fun _ hd => Digits.isDigit_of_mem_padded hd) (by omega) hc rest
  have hne : (Digits.padded width n).isEmpty = false := by
    obtain ⟨d, ds, hds, -⟩ := padded_cons width n
    rw [hds]
    rfl
  simp [readFraction, Digits.read, hrun, hne, hlength, Digits.ofDigitChars_padded, hc]

theorem readFraction_write {nanos : Nat} (h : nanos < 10 ^ 9) {c : Char} (hc : c.isDigit = false)
    (hdot : c ≠ '.') (rest : List Char) :
    readFraction (writeFraction nanos ++ c :: rest) = some (nanos, c :: rest) := by
  have hread {width n : Nat} (hw : 0 < width) (hmost : width ≤ 9) (hn : n < 10 ^ width)
      (hnanos : n * 10 ^ (9 - width) = nanos) :
      readFraction ('.' :: Digits.padded width n ++ c :: rest) = some (nanos, c :: rest) := by
    rw [List.cons_append, readFraction_padded hw hmost hn hc, hnanos]
  unfold writeFraction
  split
  · next hzero =>
    simp [readFraction, hdot, hzero]
  split
  · exact hread (by decide) (by decide) (by omega) (by omega)
  split
  · exact hread (by decide) (by decide) (by omega) (by omega)
  · exact hread (by decide) (by decide) h (by omega)

-- ---------------------------------------------------------------------------
-- Whole times
-- ---------------------------------------------------------------------------

/-- The year of a time has four digits, and the time is not in a leap second. -/
structure Plain (t : Timestamp) : Prop where
  nonneg : 0 ≤ t.date.year
  fourDigits : t.date.year ≤ 9999
  noLeap : t.isLeapSecond = false

theorem ofClock?_of {t : Timestamp} (h : t.Plain) : ofClock? t.date (t.secondOfDay / 3600)
    (t.secondOfDay / 60 % 60) (t.secondOfDay % 60) t.nanos 0 = some t := by
  obtain ⟨hlow, hhigh, hleap⟩ := h
  have hclock : (t.secondOfDay : Int) = t.seconds % 86400 := by
    unfold secondOfDay
    omega
  have hday : t.date.dayNumber = Date.epochDay + t.seconds / 86400 :=
    Date.dayNumber_ofDayNumber _
  have hvalid : t.date.isValid = true := Date.isValid_ofDayNumber _
  have hyear : yearInRange t.date.year = true := by
    simp only [yearInRange, Bool.and_eq_true, decide_eq_true_eq]
    show -262143 ≤ t.date.year ∧ t.date.year ≤ 262142
    omega
  have hseconds : (t.date.dayNumber - Date.epochDay) * 86400 +
      ((t.secondOfDay / 3600 : Nat) * 3600 + (t.secondOfDay / 60 % 60 : Nat) * 60 +
        (t.secondOfDay % 60 : Nat)) - 0 = t.seconds := by
    omega
  have hmin : min (t.secondOfDay % 60) 59 = t.secondOfDay % 60 := by omega
  have hsecond : t.secondOfDay % 60 ≠ 60 := by omega
  unfold ofClock?
  rw [if_pos]
  · simp only [hmin, if_neg hsecond, Nat.add_zero, hseconds]
    exact if_pos hyear
  · simp only [hvalid, hyear, Bool.and_eq_true, decide_eq_true_eq, true_and]
    omega

theorem parse?_render {t : Timestamp} (h : t.Plain) : parse? t.render = some t := by
  obtain ⟨hmonth, hday⟩ : t.date.month < 100 ∧ t.date.day < 100 :=
    Date.lt_of_isValid (Date.isValid_ofDayNumber _)
  have hclock : t.secondOfDay < 86400 := by
    unfold secondOfDay
    omega
  have hnanos : t.nanos < 10 ^ 9 := by
    have hleap : ¬ nanosPerSecond ≤ t.nanos := of_decide_eq_false h.noLeap
    unfold nanosPerSecond at hleap
    omega
  have hwritten : t.write = writeYear t.date.year ++ '-' :: (Digits.padded 2 t.date.month ++
      '-' :: (Digits.padded 2 t.date.day ++ 'T' :: (Digits.padded 2 (t.secondOfDay / 3600) ++
        ':' :: (Digits.padded 2 (t.secondOfDay / 60 % 60) ++
          ':' :: (Digits.padded 2 (t.secondOfDay % 60) ++ (writeFraction t.nanos ++ ['Z'])))))) := by
    simp [write, h.noLeap]
  have hyear := readYear_write h.nonneg h.fourDigits
  have hhour : t.secondOfDay / 3600 < 100 := by omega
  have hminute : t.secondOfDay / 60 % 60 < 100 := by omega
  have hsecond : t.secondOfDay % 60 < 100 := by omega
  have hdash := readMark_cons (by decide : isBlank '-' = false)
  have hcolon := readMark_cons (by decide : isBlank ':' = false)
  have hfraction := readFraction_write hnanos (by decide : 'Z'.isDigit = false) (by decide) []
  have hzone : readZone ['Z'] = some (0, []) := rfl
  rw [parse?, render, String.toList_ofList, hwritten, read]
  simp only [Option.bind_eq_bind, Option.bind_some, hyear, hdash, hcolon, readSeparator,
    readField_padded hmonth, readField_padded hday, readField_padded hhour,
    readField_padded hminute, readField_padded hsecond, hfraction, hzone]
  exact ofClock?_of h

end Timestamp

end StageGate
