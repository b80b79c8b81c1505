/-!
# Durations

A duration is a count of nanoseconds up to a limit of 2^64 seconds. Operations that would pass the
limit stop at it.
-/

namespace StageGate

/-- The longest duration: 2^64 - 1 seconds and 999999999 nanoseconds. -/
def Duration.limit : Nat := UInt64.size * 1000000000 - 1

structure Duration where
  nanos : Nat
  nanos_le : nanos ≤ Duration.limit
deriving DecidableEq, Repr

namespace Duration

theorem ext_nanos {a b : Duration} (h : a.nanos = b.nanos) : a = b := by
  cases a; cases b; cases h; rfl

def clamp (nanos : Nat) : Duration := ⟨Nat.min nanos limit, Nat.min_le_right ..⟩

def zero : Duration := ⟨0, Nat.zero_le _⟩

instance : Inhabited Duration := ⟨zero⟩

def isZero (d : Duration) : Bool := d.nanos == 0

def ofMillis (ms : UInt64) : Duration := clamp (ms.toNat * 1000000)

def ofParts (seconds nanos : Nat) : Duration := clamp (seconds * 1000000000 + nanos)

def wholeSeconds (d : Duration) : Nat := d.nanos / 1000000000

def subsecNanos (d : Duration) : Nat := d.nanos % 1000000000

def wholeMillis (d : Duration) : Nat := d.nanos / 1000000

def add (a b : Duration) : Duration := clamp (a.nanos + b.nanos)

def scale (d : Duration) (factor : Nat) : Duration := clamp (d.nanos * factor)

def min (a b : Duration) : Duration := if a.nanos ≤ b.nanos then a else b

instance : LE Duration := ⟨fun a b => a.nanos ≤ b.nanos⟩

instance (a b : Duration) : Decidable (a ≤ b) := inferInstanceAs (Decidable (a.nanos ≤ b.nanos))

theorem le_iff {a b : Duration} : a ≤ b ↔ a.nanos ≤ b.nanos := Iff.rfl

@[simp] theorem nanos_clamp (n : Nat) : (clamp n).nanos = Nat.min n limit := rfl

theorem add_zero (d : Duration) : d.add zero = d :=
  ext_nanos (Nat.min_eq_left d.nanos_le)

theorem nanos_min (a b : Duration) : (min a b).nanos = Nat.min a.nanos b.nanos := by
  unfold min
  split
  · next h => exact (Nat.min_eq_left h).symm
  · next h => exact (Nat.min_eq_right (Nat.le_of_not_le h)).symm

theorem nanos_min_scale (d most : Duration) (factor : Nat) :
    (min (d.scale factor) most).nanos = Nat.min (d.nanos * factor) most.nanos := by
  rw [nanos_min]
  simp only [scale, nanos_clamp, Nat.min_def]
  have := most.nanos_le
  repeat' split
  all_goals omega

end Duration

end StageGate
