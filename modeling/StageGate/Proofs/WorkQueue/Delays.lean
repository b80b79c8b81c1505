import StageGate.Proofs.WorkQueue.Sound

/-!
# Requests that lie in wait

The requests in wait stand by due time, so those that have fallen due are the ones in front. Main
statements: `delayed_ripen` and `mem_dirty_ripen`. When a queue is brought up to a time, exactly the
requests that are due by then leave it, and their keys are asked for.
-/

namespace StageGate.WorkQueue

variable {q : WorkQueue} {d e : Delayed} {l : List Delayed} {k : PromotionKey} {now : Instant}

def ByDue (l : List Delayed) : Prop := l.Pairwise fun d e => d.due ≤ e.due

theorem perm_schedule (d : Delayed) (l : List Delayed) : (schedule d l).Perm (d :: l) := by
  induction l with
  | nil => exact .refl _
  | cons e rest ih =>
    simp only [schedule]
    split
    · exact (ih.cons e).trans (.swap d e rest)
    · exact .refl _

theorem ByDue.schedule (h : ByDue l) (d : Delayed) : ByDue (schedule d l) := by
  induction l with
  | nil => exact List.pairwise_singleton ..
  | cons e rest ih =>
    obtain ⟨hfirst, hrest⟩ := List.pairwise_cons.mp h
    simp only [WorkQueue.schedule]
    split
    · next hle =>
      refine List.pairwise_cons.mpr ⟨fun x hx => ?_, ih hrest⟩
      rcases mem_schedule.mp hx with rfl | hx
      · exact hle
      · exact hfirst x hx
    · next hlt =>
      refine List.pairwise_cons.mpr ⟨fun x hx => ?_, h⟩
      have hde : d.due ≤ e.due := Nat.le_of_not_le hlt
      rcases List.mem_cons.mp hx with rfl | hx
      · exact hde
      · exact Nat.le_trans hde (hfirst x hx)

theorem ByDue.split (h : ByDue l) (now : Instant) :
    l.takeWhile (·.due ≤ now) = l.filter (·.due ≤ now) ∧
      l.dropWhile (·.due ≤ now) = l.filter (now < ·.due) := by
  induction l with
  | nil => exact ⟨rfl, rfl⟩
  | cons d rest ih =>
    obtain ⟨hfirst, hrest⟩ := List.pairwise_cons.mp h
    by_cases hd : d.due ≤ now
    · simp [hd, ih hrest]
    · have hlate : ∀ e ∈ d :: rest, now < e.due := by
        intro e he
        rcases List.mem_cons.mp he with rfl | he
        · exact Nat.lt_of_not_le hd
        · exact Nat.lt_of_lt_of_le (Nat.lt_of_not_le hd) (hfirst e he)
      have hnone : (d :: rest).filter (·.due ≤ now) = [] :=
        List.filter_eq_nil_iff.mpr fun e he => by simpa using hlate e he
      have hall : (d :: rest).filter (now < ·.due) = d :: rest :=
        List.filter_eq_self.mpr fun e he => by simpa using hlate e he
      rw [hnone, hall]
      simp [hd]

@[simp] theorem delayed_foldl_add (keys : List PromotionKey) (q : WorkQueue) :
    (keys.foldl add q).delayed = q.delayed := by
  induction keys generalizing q with
  | nil => rfl
  | cons k keys ih => rw [List.foldl_cons, ih, delayed_add]

theorem mem_dirty_foldl_add (keys : List PromotionKey) (hc : q.closed = false) :
    k ∈ (keys.foldl add q).dirty ↔ k ∈ keys ∨ k ∈ q.dirty := by
  induction keys generalizing q with
  | nil => simp
  | cons j keys ih =>
    rw [List.foldl_cons, ih ((closed_add q j).trans hc), mem_dirty_add hc, List.mem_cons, or_assoc,
      or_left_comm]

theorem delayed_ripen (h : ByDue q.delayed) (now : Instant) :
    (q.ripen now).delayed = q.delayed.filter (now < ·.due) := by
  rw [ripen, delayed_foldl_add]
  exact (h.split now).2

theorem mem_dirty_ripen (h : ByDue q.delayed) (hc : q.closed = false) :
    k ∈ (q.ripen now).dirty ↔
      k ∈ q.dirty ∨ ∃ d ∈ q.delayed.filter (·.due ≤ now), d.key = k := by
  let waiting : WorkQueue := { q with delayed := q.delayed.dropWhile (·.due ≤ now) }
  have hwaiting : waiting.closed = false := hc
  refine (mem_dirty_foldl_add _ hwaiting).trans ?_
  rw [(h.split now).1, List.mem_map, or_comm]

end StageGate.WorkQueue
