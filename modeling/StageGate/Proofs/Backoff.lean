import Mathlib.Algebra.Group.Nat.Defs
import Mathlib.Data.List.Induction
import Mathlib.Order.MinMax
import StageGate.Backoff
import StageGate.Key

/-!
# Delays after failures in a row

Keys fail, are forgotten, and have their failures read off, in any order; each failure is answered
with a delay, here without a random part. Main statements: `doubled_until_capped` gives the delay
after any number of failures in a row, and says when it is the base doubled that often;
`set_by_own_failures` says that nothing but a key's own failures counts for it, and that its delays
rise up to the ceiling.
-/

namespace StageGate.Backoff

variable {κ : Type}

inductive Call (κ : Type) where
  | fail (key : κ)
  | forget (key : κ)
  | look (key : κ)
deriving DecidableEq

def Call.key : Call κ → κ
  | .fail key | .forget key | .look key => key

-- ---------------------------------------------------------------------------
-- Failures in a row
-- ---------------------------------------------------------------------------

/-- How often a key has failed since it was last forgotten. -/
def inARow [DecidableEq κ] (k : κ) (calls : List (Call κ)) : Nat :=
  (calls.reverse.takeWhile (· ≠ .forget k)).count (.fail k)

section
variable [DecidableEq κ] {k : κ} {calls later : List (Call κ)} {c : Call κ}

theorem inARow_append (h : .forget k ∉ later) :
    inARow k (calls ++ later) = inARow k calls + later.count (.fail k) := by
  have hkept : ∀ c ∈ later.reverse, decide (c ≠ .forget k) = true := by
    intro c hc
    rw [decide_eq_true_iff]
    rintro rfl
    exact h (List.mem_reverse.mp hc)
  simp only [inARow, List.reverse_append, List.takeWhile_append_of_pos hkept, List.count_append,
    List.count_reverse, Nat.add_comm]

theorem inARow_concat (k : κ) (calls : List (Call κ)) (c : Call κ) : inARow k (calls ++ [c]) =
    if c = .forget k then 0 else inARow k calls + if c = .fail k then 1 else 0 := by
  split
  · next h => simp [inARow, h]
  · next h =>
    rw [inARow_append (by simpa [eq_comm] using h)]
    simp [List.count_singleton]

theorem inARow_filter (k : κ) (calls : List (Call κ)) :
    inARow k (calls.filter (·.key = k)) = inARow k calls := by
  induction calls using List.reverseRecOn with
  | nil => rfl
  | append_singleton calls c ih =>
    rw [List.filter_append, inARow_concat]
    by_cases hk : c.key = k
    · simp [hk, inARow_concat, ih]
    · have hforget : c ≠ .forget k := by
        rintro rfl
        exact hk rfl
      have hfail : c ≠ .fail k := by
        rintro rfl
        exact hk rfl
      simp [hk, hforget, hfail, ih]

end

-- ---------------------------------------------------------------------------
-- Words
-- ---------------------------------------------------------------------------

theorem toNat_countUp (n : UInt32) : (countUp n).toNat = min (n.toNat + 1) (2 ^ 32 - 1) := by
  have hn := n.toNat_lt
  unfold countUp
  split
  · next h =>
    rw [UInt32.size] at h
    rw [UInt32.toNat_add]
    simp
    omega
  · next h =>
    rw [UInt32.size] at h
    omega

theorem factor_eq (n : UInt32) : factor n = min (2 ^ n.toNat) (2 ^ 32 - 1) := by
  unfold factor
  split
  · next h =>
    have hpow : 2 ^ n.toNat ≤ 2 ^ 31 := Nat.pow_le_pow_right (by decide) (by omega)
    rw [Nat.min_eq_left (by omega), Nat.pow_eq]
  · next h =>
    have hpow : 2 ^ 32 ≤ 2 ^ n.toNat := Nat.pow_le_pow_right (by decide) (by omega)
    have hsize : UInt32.size - 1 = 2 ^ 32 - 1 := rfl
    rw [hsize, Nat.min_eq_right (by omega)]

theorem min_two_pow_min (n most : Nat) : min (2 ^ min n most) most = min (2 ^ n) most := by
  rcases Nat.le_total n most with h | h
  · rw [Nat.min_eq_left h]
  · have hmost : most ≤ 2 ^ most := Nat.le_of_lt Nat.lt_two_pow_self
    have hn : most ≤ 2 ^ n := Nat.le_trans hmost (Nat.pow_le_pow_right (by decide) h)
    rw [Nat.min_eq_right h, Nat.min_eq_right hmost, Nat.min_eq_right hn]

theorem min_factor_iff (base ceiling n : Nat) :
    min (base * min (2 ^ n) (2 ^ 32 - 1)) ceiling = min (base * 2 ^ n) ceiling ↔
      n < 32 ∨ base = 0 ∨ ceiling ≤ base * (2 ^ 32 - 1) := by
  rcases Nat.lt_or_ge n 32 with hn | hn
  · have hpow : 2 ^ n ≤ 2 ^ 31 := Nat.pow_le_pow_right (by decide) (by omega)
    rw [Nat.min_eq_left (by omega : 2 ^ n ≤ 2 ^ 32 - 1)]
    simp [hn]
  · have hpow : 2 ^ 32 ≤ 2 ^ n := Nat.pow_le_pow_right (by decide) hn
    have hmore : base * 2 ^ 32 ≤ base * 2 ^ n := Nat.mul_le_mul_left base hpow
    rw [Nat.min_eq_right (by omega : 2 ^ 32 - 1 ≤ 2 ^ n)]
    have hzero : base = 0 → base * 2 ^ n = 0 := fun h => by rw [h, Nat.zero_mul]
    generalize base * 2 ^ n = doubled at hmore hzero ⊢
    omega

-- ---------------------------------------------------------------------------
-- Runs
-- ---------------------------------------------------------------------------

variable [Ord κ] [Std.TransOrd κ]

def delay (b : Backoff κ) (k : κ) : Duration := (b.record k .zero).1

def perform (b : Backoff κ) : Call κ → Backoff κ
  | .fail key => (b.record key .zero).2
  | .forget key => b.forget key
  | .look _ => b

def fresh (base ceiling : Duration) : Backoff κ := { base, ceiling }

def after (b : Backoff κ) (calls : List (Call κ)) : Backoff κ := calls.foldl perform b

theorem after_concat (b : Backoff κ) (calls : List (Call κ)) (c : Call κ) :
    b.after (calls ++ [c]) = (b.after calls).perform c := by
  simp [after]

theorem nanos_delay (b : Backoff κ) (k : κ) :
    (b.delay k).nanos = min (b.base.nanos * factor (b.failures k)) b.ceiling.nanos := by
  have hdelay : b.delay k = Duration.min (b.delayAfter (b.failures k)) b.ceiling := by
    rw [delay, record, Duration.add_zero]
  rw [hdelay, Duration.nanos_min, delayAfter_nanos]
  exact Nat.min_eq_left (Nat.min_le_right _ _)

theorem limits_after (b : Backoff κ) (calls : List (Call κ)) :
    (b.after calls).base = b.base ∧ (b.after calls).ceiling = b.ceiling := by
  induction calls using List.reverseRecOn with
  | nil => exact ⟨rfl, rfl⟩
  | append_singleton calls c ih =>
    rw [after_concat]
    cases c <;> exact ih

variable [Std.LawfulEqOrd κ] [DecidableEq κ] {k : κ} {calls : List (Call κ)} {base ceiling : Duration}

/-- The count of a key is that of its failures in a row, up to the largest word. -/
theorem failures_after : (((fresh base ceiling).after calls).failures k).toNat =
    min (inARow k calls) (2 ^ 32 - 1) := by
  induction calls using List.reverseRecOn with
  | nil => rfl
  | append_singleton calls c ih =>
    rw [after_concat, inARow_concat]
    cases c with
    | fail key =>
      rw [perform, failures_record]
      by_cases hk : key = k
      · subst hk
        simp only [if_true, reduceCtorEq, if_false, toNat_countUp, ih]
        omega
      · simp [hk, Ne.symm hk, ih]
    | forget key =>
      rw [perform, failures_forget]
      by_cases hk : key = k
      · simp [hk]
      · simp [hk, Ne.symm hk, ih]
    | look key => simpa [perform] using ih

theorem nanos_delay_after : (((fresh base ceiling).after calls).delay k).nanos =
    min (base.nanos * min (2 ^ inARow k calls) (2 ^ 32 - 1)) ceiling.nanos := by
  obtain ⟨hbase, hceiling⟩ := limits_after (fresh base ceiling) calls
  rw [nanos_delay, hbase, hceiling, factor_eq, failures_after, min_two_pow_min]
  rfl

/-- After any calls, the next delay of a key that has failed `n` times in a row is the base times
`2 ^ n`, up to the ceiling, where the power stops at the largest word. So it is the base doubled `n`
times, up to the ceiling, exactly if `n` is less than 32, or the base is zero, or the ceiling is no
more than the base times the largest word. -/
theorem doubled_until_capped (base ceiling : Duration) (calls : List (Call κ)) (k : κ) :
    let n := inARow k calls
    let delay := (((fresh base ceiling).after calls).delay k).nanos
    delay = min (base.nanos * min (2 ^ n) (2 ^ 32 - 1)) ceiling.nanos ∧
    (delay = min (base.nanos * 2 ^ n) ceiling.nanos ↔
      n < 32 ∨ base.nanos = 0 ∨ ceiling.nanos ≤ base.nanos * (2 ^ 32 - 1)) := by
  intro n delay
  have hdelay : delay = min (base.nanos * min (2 ^ n) (2 ^ 32 - 1)) ceiling.nanos :=
    nanos_delay_after
  exact ⟨hdelay, hdelay ▸ min_factor_iff base.nanos ceiling.nanos n⟩

namespace Sample

def key : PromotionKey := ⟨"ns", "a"⟩

def neighbour : PromotionKey := ⟨"ns", "b"⟩

def distant : Duration := .ofParts 10000000 0

/-- Two failures that are forgotten, and forty that are not, with those of another key between. -/
def stubborn : List (Call PromotionKey) :=
  [.fail key, .fail key, .forget key] ++
    (List.replicate 40 [.fail neighbour, .look key, .fail key]).flatten ++ [.forget neighbour]

theorem inARow_stubborn : inARow key stubborn = 40 := by decide +kernel

end Sample

open Sample in
theorem doubled_until_capped_sample :
    let slow := (fresh (.ofMillis 1) distant).after stubborn
    let brisk := (fresh (.ofMillis 5) distant).after stubborn
    (slow.delay key).nanos = 4294967295000000 ∧
    (slow.delay key).nanos ≠ min ((Duration.ofMillis 1).nanos * 2 ^ 40) distant.nanos ∧
    (brisk.delay key).nanos = min ((Duration.ofMillis 5).nanos * 2 ^ 40) distant.nanos := by
  intro slow brisk
  obtain ⟨hslow, hmissed⟩ := doubled_until_capped (.ofMillis 1) distant stubborn key
  obtain ⟨-, hreached⟩ := doubled_until_capped (.ofMillis 5) distant stubborn key
  rw [inARow_stubborn] at hslow hmissed hreached
  refine ⟨hslow.trans (by decide +kernel), fun h => ?_, hreached.mpr ?_⟩
  · exact absurd (hmissed.mp h) (by decide +kernel)
  · exact .inr (.inr (by decide +kernel))

open Sample in
/-- The delay after 32 failures in a row falls short of the base doubled 32 times by one base. -/
theorem doubling_falls_short : ∃ calls : List (Call PromotionKey), inARow key calls = 32 ∧
    (((fresh (.ofMillis 1) distant).after calls).delay key).nanos = 4294967295000000 ∧
    min ((Duration.ofMillis 1).nanos * 2 ^ 32) distant.nanos = 4294967296000000 :=
  ⟨List.replicate 32 (.fail key), by decide +kernel, by decide +kernel, by decide +kernel⟩

/-- After any calls: the count of a key is that of its failures since it was last forgotten, up to
the largest word, and neither it nor the delay depends on anything else, so that calls about other
keys make no difference. A later delay, with the key not forgotten in between, is no shorter; none
is shorter than the base, or the ceiling if that is less, and none is longer than the ceiling. -/
theorem set_by_own_failures (base ceiling : Duration) (calls : List (Call κ)) (k : κ) :
    let start : Backoff κ := fresh base ceiling
    let b := start.after calls
    (b.failures k).toNat = min (inARow k calls) (2 ^ 32 - 1) ∧
    inARow k (calls.filter (·.key = k)) = inARow k calls ∧
    (∀ others, inARow k others = inARow k calls →
      (start.after others).delay k = b.delay k ∧
      (start.after others).failures k = b.failures k) ∧
    (∀ later, .forget k ∉ later →
      b.delay k ≤ (start.after (calls ++ .fail k :: later)).delay k) ∧
    Duration.min base ceiling ≤ b.delay k ∧ b.delay k ≤ ceiling := by
  intro start b
  have hdelay : (b.delay k).nanos =
      min (base.nanos * min (2 ^ inARow k calls) (2 ^ 32 - 1)) ceiling.nanos := nanos_delay_after
  refine ⟨failures_after, inARow_filter k calls, fun others hsame => ⟨?_, ?_⟩, fun later hkept => ?_,
    ?_, ?_⟩
  · exact Duration.ext_nanos (by rw [hdelay, nanos_delay_after, hsame])
  · exact UInt32.toNat_inj.mp (by rw [failures_after, failures_after, hsame])
  · have hmore : inARow k calls ≤ inARow k (calls ++ .fail k :: later) := by
      rw [inARow_append (by simpa using hkept)]
      exact Nat.le_add_right _ _
    rw [Duration.le_iff, hdelay, nanos_delay_after]
    have hpow : 2 ^ inARow k calls ≤ 2 ^ inARow k (calls ++ .fail k :: later) :=
      Nat.pow_le_pow_right (by decide) hmore
    exact min_le_min_right _ (Nat.mul_le_mul_left _ (min_le_min_right _ hpow))
  · have hone : 1 ≤ min (2 ^ inARow k calls) (2 ^ 32 - 1) :=
      Nat.le_min.mpr ⟨Nat.one_le_two_pow, by decide⟩
    rw [Duration.le_iff, Duration.nanos_min, hdelay]
    exact min_le_min_right _ (Nat.le_mul_of_pos_right _ hone)
  · rw [Duration.le_iff, hdelay]
    exact Nat.min_le_right _ _

open Sample in
theorem set_by_own_failures_sample :
    let start : Backoff PromotionKey := fresh (.ofMillis 5) distant
    let b := start.after stubborn
    (b.failures key).toNat = 40 ∧
    (start.after (List.replicate 40 (.fail key))).delay key = b.delay key ∧
    b.delay key ≤ (start.after (stubborn ++ .fail key :: [.fail neighbour])).delay key ∧
    Duration.min (.ofMillis 5) distant ≤ b.delay key ∧ b.delay key ≤ distant := by
  intro start b
  obtain ⟨hcount, -, hsame, hlater, hlow, hhigh⟩ :=
    set_by_own_failures (.ofMillis 5) distant stubborn key
  rw [inARow_stubborn] at hcount hsame
  exact ⟨hcount, (hsame _ (by decide +kernel)).1, hlater _ (by decide +kernel), hlow, hhigh⟩

end StageGate.Backoff
