import StageGate.Duration
import StageGate.SortedMap

/-!
# Exponential backoff

Each failure of a key in a row doubles the delay before it is tried again, up to a ceiling. Keys do
not share their counts. Main statements: `delayAfter_nanos` gives the delay as a number, and
`failures_record` and `failures_forget` say what the two writes do to the count of any key.
-/

namespace StageGate

/-- Counts failures in a row by key; a count stops at the largest word. -/
structure Backoff (κ : Type) [Ord κ] where
  base : Duration
  ceiling : Duration
  counts : SortedMap κ UInt32 := .empty

namespace Backoff

variable {κ : Type} [Ord κ]

/-- What the first delay is multiplied with after `failures` failures. It is a 32-bit word, so it
stops doubling where it would no longer fit and takes the largest value of one. -/
def factor (failures : UInt32) : Nat :=
  if failures.toNat < 32 then Nat.pow 2 failures.toNat else UInt32.size - 1

def delayAfter (b : Backoff κ) (failures : UInt32) : Duration :=
  Duration.min (b.base.scale (factor failures)) b.ceiling

def failures (b : Backoff κ) (key : κ) : UInt32 := (b.counts.get? key).getD 0

/-- One more, but not past the largest word. -/
def countUp (n : UInt32) : UInt32 := if n.toNat + 1 < UInt32.size then n + 1 else n

/-- Counts a failure, and says how long to wait after it. `stretch` is the random part of the delay;
it never leads past the ceiling. -/
def record [Std.TransOrd κ] (b : Backoff κ) (key : κ) (stretch : Duration) :
    Duration × Backoff κ :=
  let n := b.failures key
  (Duration.min ((b.delayAfter n).add stretch) b.ceiling,
    { b with counts := b.counts.insert key (countUp n) })

def forget (b : Backoff κ) (key : κ) : Backoff κ := { b with counts := b.counts.erase key }

theorem delayAfter_nanos (b : Backoff κ) (n : UInt32) :
    (b.delayAfter n).nanos = Nat.min (b.base.nanos * factor n) b.ceiling.nanos :=
  Duration.nanos_min_scale ..

variable [Std.TransOrd κ] [Std.LawfulEqOrd κ] [DecidableEq κ]

theorem failures_record (b : Backoff κ) (key other : κ) (stretch : Duration) :
    (b.record key stretch).2.failures other =
      if other = key then countUp (b.failures key) else b.failures other := by
  by_cases h : other = key
  · subst h; simp [record, failures]
  · simp [record, failures, h, SortedMap.get?_insert_of_ne _ _ h]

theorem failures_forget (b : Backoff κ) (key other : κ) :
    (b.forget key).failures other = if other = key then 0 else b.failures other := by
  by_cases h : other = key
  · subst h; simp [forget, failures]
  · simp [forget, failures, h, SortedMap.get?_erase_of_ne _ h]

end Backoff

end StageGate
