/-!
# Digits

Reading a run of decimal digits off the front of a text, and writing a number with at least a given
count of them; the value of a hexadecimal digit. Main statement: `read_padded`, what is written
reads back.
-/

namespace StageGate.Text.Digits

def run (most : Nat) (s : List Char) : List Char := (s.take most).takeWhile Char.isDigit

/-- The number that the first digits name, at most `most` of them, and what follows them. -/
def read (most : Nat) (s : List Char) : Option (Nat × List Char) :=
  if (run most s).isEmpty then none
  else some (Nat.ofDigitChars 10 (run most s) 0, s.drop (run most s).length)

/-- The digits of a number, with zeros in front up to `width`. -/
def padded (width n : Nat) : List Char :=
  List.replicate (width - (Nat.toDigits 10 n).length) '0' ++ Nat.toDigits 10 n

def hexValue (c : Char) : Option Nat :=
  if c.isDigit then some (c.toNat - '0'.toNat)
  else if 'a' ≤ c ∧ c ≤ 'f' then some (c.toNat - 'a'.toNat + 10)
  else if 'A' ≤ c ∧ c ≤ 'F' then some (c.toNat - 'A'.toNat + 10)
  else none

theorem run_append {most : Nat} {ds rest : List Char} (hd : ∀ c ∈ ds, c.isDigit = true)
    (hw : ds.length = most) : run most (ds ++ rest) = ds := by
  have h : (ds ++ rest).take most = ds := by rw [← hw, List.take_left]
  rw [run, h]
  clear hw h
  induction ds with
  | nil => rfl
  | cons c ds ih =>
    have hc := hd c List.mem_cons_self
    rw [List.takeWhile_cons_of_pos hc, ih fun d h => hd d (List.mem_cons_of_mem _ h)]

theorem isDigit_of_mem_padded {width n : Nat} {c : Char} (h : c ∈ padded width n) :
    c.isDigit = true := by
  rcases List.mem_append.1 h with h | h
  · rw [(List.mem_replicate.1 h).2]; rfl
  · exact Nat.isDigit_of_mem_toDigits (by decide) (by decide) h

theorem ofDigitChars_zeros (k : Nat) (ds : List Char) :
    Nat.ofDigitChars 10 (List.replicate k '0' ++ ds) 0 = Nat.ofDigitChars 10 ds 0 := by
  induction k with
  | zero => rfl
  | succ k ih => simpa [List.replicate_succ, Nat.ofDigitChars] using ih

theorem ofDigitChars_padded (width n : Nat) : Nat.ofDigitChars 10 (padded width n) 0 = n := by
  rw [padded, ofDigitChars_zeros, Nat.ofDigitChars_toDigits (by decide) (by decide)]

theorem read_padded {width n : Nat} (h : (padded width n).length = width) (hw : 0 < width)
    (rest : List Char) : read width (padded width n ++ rest) = some (n, rest) := by
  have hr : run width (padded width n ++ rest) = padded width n :=
    run_append (fun _ hc => isDigit_of_mem_padded hc) h
  have hne : (padded width n).isEmpty = false := by
    cases hp : padded width n with
    | nil => rw [hp] at h; simp at h; omega
    | cons => rfl
  simp [read, hr, hne, ofDigitChars_padded]

end StageGate.Text.Digits
