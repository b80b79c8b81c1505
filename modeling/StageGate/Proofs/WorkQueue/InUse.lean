import StageGate.Proofs.WorkQueue.Sound

/-!
# A work queue in use

Keys are asked for, now or for later, workers take keys and give them back, and time passes, all in
any order; the queue may be closed at any time. A worker gives back only a key that it holds. Main
statement: `consistent_of_reachable`. The four collections of a queue agree throughout, no key is in
the hands of two workers, and the queue is idle exactly if nothing is asked for, held or waited for.
-/

namespace StageGate.WorkQueue

inductive Call where
  | add (key : PromotionKey)
  | addAfter (key : PromotionKey) (delay : Duration)
  | addRateLimited (key : PromotionKey) (stretch : Duration)
  | forget (key : PromotionKey)
  | tryGet
  | done (key : PromotionKey)
  | close
  | wait (nanos : Nat)

/-- A queue, the time, and the keys in the hands of workers: they were handed out and have not been
given back, the latest first. -/
structure InUse where
  queue : WorkQueue
  now : Instant := 0
  hands : List PromotionKey := []

namespace InUse

def perform (u : InUse) : Call → InUse
  | .add key => { u with queue := u.queue.add key }
  | .addAfter key delay => { u with queue := u.queue.addAfter u.now key delay }
  | .addRateLimited key stretch => { u with queue := u.queue.addRateLimited u.now key stretch }
  | .forget key => { u with queue := u.queue.forget key }
  | .tryGet =>
    let (key?, queue) := u.queue.tryGet u.now
    { u with queue, hands := key?.toList ++ u.hands }
  | .done key => { u with queue := u.queue.done key, hands := u.hands.erase key }
  | .close => { u with queue := u.queue.close }
  | .wait nanos => { u with now := u.now + nanos }

def Allows (u : InUse) : Call → Prop
  | .done key => key ∈ u.hands
  | _ => True

inductive Reachable (start : InUse) : InUse → Prop where
  | start : Reachable start start
  | call (reached : Reachable start u) (c : Call) (allowed : u.Allows c) :
      Reachable start (u.perform c)

structure Consistent (u : InUse) : Prop where
  sound : u.queue.Sound
  held : ∀ k, k ∈ u.queue.held ↔ k ∈ u.hands
  distinct : u.hands.Nodup

variable {u : InUse} {k : PromotionKey}

/-- Requests and the clock touch neither the keys that are held nor the agreement of the rest. -/
theorem Consistent.feed (h : u.Consistent) {queue : WorkQueue} (now : Instant)
    (held : queue.held = u.queue.held) (sound : queue.Sound) :
    ({ u with queue, now } : InUse).Consistent :=
  ⟨sound, by rw [held]; exact h.held, h.distinct⟩

theorem Consistent.free_of_tryGet (h : u.Consistent) {now : Instant}
    (got : (u.queue.tryGet now).1 = some k) : k ∉ u.hands := by
  have hready := (h.sound.ripen now).mem_ready k
  rcases take_cases (u.queue.ripen now) with ⟨-, ht⟩ | ⟨j, rest, hr, ht⟩
  · rw [tryGet, ht] at got
    cases got
  · rw [tryGet, ht] at got
    obtain rfl := Option.some.inj got
    rw [hr, held_ripen] at hready
    rw [← h.held]
    exact (hready.mp List.mem_cons_self).2

theorem Consistent.tryGet (h : u.Consistent) : (u.perform .tryGet).Consistent := by
  have hsound := (h.sound.ripen u.now).take
  rcases take_cases (u.queue.ripen u.now) with ⟨-, ht⟩ | ⟨k, rest, hr, ht⟩
  · rw [ht] at hsound
    simp only [perform, WorkQueue.tryGet, ht]
    exact h.feed u.now (held_ripen _) hsound
  · have hgot : (u.queue.tryGet u.now).1 = some k := by rw [WorkQueue.tryGet, ht]
    have hfree : k ∉ u.hands := h.free_of_tryGet hgot
    rw [ht] at hsound
    simp only [perform, WorkQueue.tryGet, ht]
    refine ⟨hsound, fun j => ?_, List.nodup_cons.mpr ⟨hfree, h.distinct⟩⟩
    by_cases hj : j = k
    · simp [hj]
    · simp [hj, h.held]

theorem Consistent.done (h : u.Consistent) (holds : k ∈ u.hands) :
    (u.perform (.done k)).Consistent := by
  refine ⟨h.sound.done ((h.held k).mpr holds), fun j => ?_, h.distinct.erase k⟩
  show j ∈ (u.queue.done k).held ↔ j ∈ u.hands.erase k
  rw [held_done, h.distinct.mem_erase_iff, List.mem_filter, h.held, decide_eq_true_iff, and_comm]

theorem Consistent.perform (h : u.Consistent) (c : Call) (allowed : u.Allows c) :
    (u.perform c).Consistent := by
  cases c with
  | add key => exact h.feed u.now (held_add _ _) (h.sound.add key)
  | addAfter key delay => exact h.feed u.now (held_addAfter _ _) (h.sound.addAfter _ _ _)
  | addRateLimited key stretch =>
    exact h.feed u.now (held_addRateLimited _ _) (h.sound.addRateLimited _ _ _)
  | forget key => exact h.feed u.now rfl (h.sound.forget key)
  | tryGet => exact h.tryGet
  | done key => exact h.done allowed
  | close => exact h.feed u.now rfl ⟨h.sound.nodup, h.sound.mem_ready⟩
  | wait nanos => exact h.feed _ rfl h.sound

theorem Reachable.consistent {start : InUse} (hs : start.Consistent)
    (h : Reachable start u) : u.Consistent := by
  induction h with
  | start => exact hs
  | call reached c allowed ih => exact ih.perform c allowed

end InUse

theorem Sound.isIdle_iff {q : WorkQueue} (h : q.Sound) :
    q.isIdle = true ↔ q.dirty = [] ∧ q.held = [] ∧ q.delayed = [] := by
  simp only [isIdle, Bool.and_eq_true, List.isEmpty_iff, and_assoc]
  refine and_congr_left fun hrest => ?_
  -- With nothing held, what is asked for is ready.
  simp only [List.eq_nil_iff_forall_not_mem, h.mem_ready, hrest.1, List.not_mem_nil,
    not_false_eq_true, and_true]

/-- In every state of a queue in use, whose keys are given back only by workers that hold them: no
key is ready twice; the ready keys are those that are asked for and not held; the keys marked as
held are the ones in the hands of workers, each of them in the hands of one; a key handed out at any
time is in nobody's hands; and the queue is idle exactly if nothing is asked for, held or delayed.
-/
theorem consistent_of_reachable {backoff : Backoff PromotionKey} {now : Instant} {u : InUse}
    (h : InUse.Reachable { queue := { backoff }, now } u) :
    u.queue.ready.Nodup ∧
    (∀ k, k ∈ u.queue.ready ↔ k ∈ u.queue.dirty ∧ k ∉ u.queue.held) ∧
    (∀ k, k ∈ u.queue.held ↔ k ∈ u.hands) ∧ u.hands.Nodup ∧
    (∀ later k, (u.queue.tryGet later).1 = some k → k ∉ u.hands) ∧
    (u.queue.isIdle = true ↔
      u.queue.dirty = [] ∧ u.queue.held = [] ∧ u.queue.delayed = []) := by
  have hstart : InUse.Consistent { queue := { backoff }, now } :=
    ⟨sound_start backoff, by simp, List.nodup_nil⟩
  have hu := h.consistent hstart
  exact ⟨hu.sound.nodup, hu.sound.mem_ready, hu.held, hu.distinct,
    fun _ _ got => hu.free_of_tryGet got, hu.sound.isIdle_iff⟩

namespace InUse.Sample

def key : PromotionKey := ⟨"ns", "a"⟩

def start : InUse := { queue := { backoff := { base := .ofMillis 5, ceiling := .ofMillis 60 } } }

def parked : InUse :=
  [.add key, .tryGet, .addAfter key (.ofMillis 1), .add key, .wait 2000000].foldl perform start

theorem parked_reachable : Reachable start parked :=
  ((((Reachable.start.call (.add key) trivial).call .tryGet trivial).call
    (.addAfter key (.ofMillis 1)) trivial).call (.add key) trivial).call (.wait 2000000) trivial

end InUse.Sample

open InUse InUse.Sample in
theorem consistent_of_reachable_sample : ∃ u, Reachable start u ∧ u.queue.dirty = [key] ∧
    u.queue.held = [] ∧ u.queue.delayed = [⟨1000000, key⟩] ∧ u.queue.ready = [key] ∧
    u.hands = [] ∧ u.queue.isIdle = false := by
  have hgiven := parked_reachable.call (.done key) (show key ∈ parked.hands by decide +kernel)
  obtain ⟨-, -, -, -, -, hidle⟩ := consistent_of_reachable hgiven
  have hdirty : (parked.perform (.done key)).queue.dirty = [key] := by decide +kernel
  refine ⟨_, hgiven, hdirty, by decide +kernel, by decide +kernel, by decide +kernel,
    by decide +kernel, ?_⟩
  rw [← Bool.not_eq_true, hidle, hdirty]
  simp

end StageGate.WorkQueue
