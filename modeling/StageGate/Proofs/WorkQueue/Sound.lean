import StageGate.WorkQueue

/-!
# Sound work queues

A work queue is sound if a key is ready exactly when it was asked for and no worker holds it, and
is ready once. Every operation keeps a queue sound, as long as only keys that a worker holds are
given back. The second half says which keys a queue awaits, so that a worker will get to them: an
open queue awaits what was asked of it until a worker takes it.
-/

namespace StageGate.WorkQueue

variable {q : WorkQueue} {j k : PromotionKey}

structure Sound (q : WorkQueue) : Prop where
  nodup : q.ready.Nodup
  mem_ready : ∀ k, k ∈ q.ready ↔ k ∈ q.dirty ∧ k ∉ q.held

theorem sound_start (backoff : Backoff PromotionKey) : ({ backoff } : WorkQueue).Sound :=
  ⟨List.nodup_nil, by simp⟩

-- ---------------------------------------------------------------------------
-- What the operations leave alone
-- ---------------------------------------------------------------------------

@[simp] theorem held_add (q : WorkQueue) (k : PromotionKey) : (q.add k).held = q.held := by
  unfold add; repeat' split
  all_goals rfl

@[simp] theorem delayed_add (q : WorkQueue) (k : PromotionKey) : (q.add k).delayed = q.delayed := by
  unfold add; repeat' split
  all_goals rfl

@[simp] theorem closed_add (q : WorkQueue) (k : PromotionKey) : (q.add k).closed = q.closed := by
  unfold add; repeat' split
  all_goals rfl

theorem add_of_closed (hc : q.closed = true) : q.add k = q := by simp [add, hc]

theorem addAfter_of_closed (hc : q.closed = true) (now : Instant) (delay : Duration) :
    q.addAfter now k delay = q := by
  simp [addAfter, add_of_closed hc, hc]

@[simp] theorem held_addAfter (now : Instant) (delay : Duration) :
    (q.addAfter now k delay).held = q.held := by
  unfold addAfter; repeat' split
  · exact held_add q k
  all_goals rfl

@[simp] theorem closed_addAfter (now : Instant) (delay : Duration) :
    (q.addAfter now k delay).closed = q.closed := by
  unfold addAfter; repeat' split
  · exact closed_add q k
  all_goals rfl

@[simp] theorem held_addRateLimited (now : Instant) (stretch : Duration) :
    (q.addRateLimited now k stretch).held = q.held := held_addAfter now _

@[simp] theorem closed_addRateLimited (now : Instant) (stretch : Duration) :
    (q.addRateLimited now k stretch).closed = q.closed := closed_addAfter now _

theorem held_foldl_add (keys : List PromotionKey) (q : WorkQueue) :
    (keys.foldl add q).held = q.held := by
  induction keys generalizing q with
  | nil => rfl
  | cons k keys ih => rw [List.foldl_cons, ih, held_add]

theorem closed_foldl_add (keys : List PromotionKey) (q : WorkQueue) :
    (keys.foldl add q).closed = q.closed := by
  induction keys generalizing q with
  | nil => rfl
  | cons k keys ih => rw [List.foldl_cons, ih, closed_add]

@[simp] theorem held_ripen (now : Instant) : (q.ripen now).held = q.held := held_foldl_add _ _

@[simp] theorem closed_ripen (now : Instant) : (q.ripen now).closed = q.closed :=
  closed_foldl_add _ _

theorem take_cases (q : WorkQueue) : q.ready = [] ∧ q.take = (none, q) ∨
    ∃ k rest, q.ready = k :: rest ∧ q.take = (some k, { q with
      ready := rest
      dirty := q.dirty.filter (· ≠ k)
      held := k :: q.held.filter (· ≠ k) }) := by
  unfold take
  split
  · next h => exact .inl ⟨h, rfl⟩
  · next k rest h => exact .inr ⟨k, rest, h, rfl⟩

/-- What a request keeps, and does not depend on what is put off or has failed. -/
structure Kept (I : WorkQueue → Prop) : Prop where
  add : ∀ {q}, I q → ∀ k, I (q.add k)
  delay : ∀ {q}, I q → ∀ delayed backoff, I { q with delayed, backoff }

namespace Kept

variable {I : WorkQueue → Prop} (kept : Kept I) (h : I q)
include kept h

theorem foldl_add (keys : List PromotionKey) : I (keys.foldl WorkQueue.add q) := by
  induction keys generalizing q with
  | nil => exact h
  | cons k keys ih => exact ih (kept.add h k)

theorem ripen (now : Instant) : I (q.ripen now) :=
  kept.foldl_add (kept.delay h _ q.backoff) _

theorem addAfter (now : Instant) (k : PromotionKey) (delay : Duration) :
    I (q.addAfter now k delay) := by
  unfold WorkQueue.addAfter
  split
  · exact kept.add h k
  · split
    · exact h
    · exact kept.delay h _ q.backoff

theorem addRateLimited (now : Instant) (k : PromotionKey) (stretch : Duration) :
    I (q.addRateLimited now k stretch) :=
  kept.addAfter (kept.delay h q.delayed _) now k _

end Kept

-- ---------------------------------------------------------------------------
-- One key
-- ---------------------------------------------------------------------------

structure Sole (q : WorkQueue) (k : PromotionKey) : Prop where
  once : q.ready.count k ≤ 1
  asked : k ∈ q.ready → k ∈ q.dirty ∧ k ∉ q.held

def Prompt (q : WorkQueue) (k : PromotionKey) : Prop := k ∈ q.dirty → k ∉ q.held → k ∈ q.ready

namespace Sole

theorem absent (h : q.Sole k) (hk : k ∉ q.dirty ∨ k ∈ q.held) : k ∉ q.ready := fun hr =>
  hk.elim (fun hd => hd (h.asked hr).1) (h.asked hr).2

theorem enters {q' : WorkQueue} (h : q.Sole k) (ready : q'.ready = q.ready ++ [j])
    (dirty : ∀ i, i ∈ q.dirty ∨ i = j → i ∈ q'.dirty) (held : k ∈ q'.held → k ∈ q.held ∧ k ≠ j)
    (fresh : j = k → k ∉ q.ready) : q'.Sole k := by
  by_cases hj : j = k
  · subst hj
    refine ⟨?_, fun _ => ⟨dirty j (.inr rfl), fun hh => (held hh).2 rfl⟩⟩
    rw [ready, List.count_append, List.count_eq_zero.mpr (fresh rfl)]
    simp
  · refine ⟨?_, fun hr => ?_⟩
    · rw [ready, List.count_append, List.count_singleton]
      simpa [hj] using h.once
    · have hready : k ∈ q.ready := by simpa [ready, Ne.symm hj] using hr
      obtain ⟨hd, hh⟩ := h.asked hready
      exact ⟨dirty k (.inl hd), fun hk => hh (held hk).1⟩

theorem add (h : q.Sole k) (j : PromotionKey) : (q.add j).Sole k := by
  unfold WorkQueue.add
  split
  · exact h
  next hd =>
    have hdirty : j ∉ q.dirty := fun hm => hd (by simp [hm])
    split
    · exact ⟨h.once, fun hr => ⟨List.mem_cons_of_mem _ (h.asked hr).1, (h.asked hr).2⟩⟩
    · next hh =>
      have hheld : j ∉ q.held := by simpa using hh
      refine h.enters rfl (fun i hi => ?_) (fun hk => ⟨hk, ?_⟩) fun hj => ?_
      · exact hi.elim (List.mem_cons_of_mem _) fun e => e ▸ List.mem_cons_self
      · rintro rfl
        exact hheld hk
      · exact h.absent (.inl (hj ▸ hdirty))

theorem kept (k : PromotionKey) : Kept (Sole · k) where
  add h j := h.add j
  delay h _ _ := ⟨h.once, h.asked⟩

theorem take (h : q.Sole k) : q.take.2.Sole k := by
  rcases take_cases q with ⟨-, ht⟩ | ⟨j, rest, hr, ht⟩
  · rw [ht]; exact h
  · rw [ht]
    have honce := h.once
    rw [hr, List.count_cons] at honce
    by_cases hj : j = k
    · subst hj
      have hgone : rest.count j = 0 := by simpa using honce
      exact ⟨hgone ▸ Nat.zero_le 1, fun hm => absurd hm (List.count_eq_zero.mp hgone)⟩
    · refine ⟨Nat.le_trans (Nat.le_add_right _ _) honce, fun hm => ?_⟩
      obtain ⟨hd, hh⟩ := h.asked (hr ▸ List.mem_cons_of_mem _ hm)
      simp [hd, hh, Ne.symm hj]

theorem done (h : q.Sole k) (hj : j = k → k ∈ q.held) : (q.done j).Sole k := by
  unfold WorkQueue.done
  simp only
  split
  · next hd =>
    have hdirty : j ∈ q.dirty := by simpa using hd
    refine h.enters rfl (fun i hi => hi.elim id fun e => e ▸ hdirty) (fun hk => ?_) fun e => ?_
    · simpa using hk
    · exact h.absent (.inr (hj e))
  · exact ⟨h.once, fun hr => ⟨(h.asked hr).1, by simp [(h.asked hr).2]⟩⟩

end Sole

namespace Prompt

theorem add (h : q.Prompt k) (j : PromotionKey) : (q.add j).Prompt k := by
  unfold WorkQueue.add
  split
  · exact h
  · split
    · next hh =>
      intro hd hk
      rcases List.mem_cons.mp hd with rfl | hd
      · exact absurd (by simpa using hh) hk
      · exact h hd hk
    · intro hd hk
      rcases List.mem_cons.mp hd with rfl | hd
      · exact List.mem_append_right _ List.mem_cons_self
      · exact List.mem_append_left _ (h hd hk)

theorem take (h : q.Prompt k) : q.take.2.Prompt k := by
  rcases take_cases q with ⟨-, ht⟩ | ⟨j, rest, hr, ht⟩
  · rw [ht]; exact h
  · rw [ht]
    intro hd hk
    obtain ⟨hd, hj⟩ : k ∈ q.dirty ∧ k ≠ j := by simpa using hd
    have hready : k ∈ q.ready := h hd fun hh => hk (by simp [hh, hj])
    rw [hr] at hready
    exact (List.mem_cons.mp hready).resolve_left hj

theorem done (h : q.Prompt k) : (q.done j).Prompt k := by
  unfold WorkQueue.done
  simp only
  split
  · intro hd hk
    by_cases hj : k = j
    · exact List.mem_append_right _ (List.mem_singleton.mpr hj)
    · exact List.mem_append_left _ (h hd fun hh => hk (by simp [hh, hj]))
  · next hnot =>
    intro hd hk
    have hj : k ≠ j := by
      rintro rfl
      exact hnot (by simpa using hd)
    exact h hd fun hh => hk (by simp [hh, hj])

end Prompt

-- ---------------------------------------------------------------------------
-- Soundness
-- ---------------------------------------------------------------------------

theorem sound_iff : q.Sound ↔ ∀ k, q.Sole k ∧ q.Prompt k := by
  constructor
  · intro h k
    exact ⟨⟨List.nodup_iff_count.mp h.nodup k, (h.mem_ready k).mp⟩,
      fun hd hh => (h.mem_ready k).mpr ⟨hd, hh⟩⟩
  · intro h
    exact ⟨List.nodup_iff_count.mpr fun k => (h k).1.once,
      fun k => ⟨(h k).1.asked, fun ⟨hd, hh⟩ => (h k).2 hd hh⟩⟩

theorem Sound.sole (h : q.Sound) (k : PromotionKey) : q.Sole k := (sound_iff.mp h k).1

theorem Sound.prompt (h : q.Sound) (k : PromotionKey) : q.Prompt k := (sound_iff.mp h k).2

theorem Sound.add (h : q.Sound) (j : PromotionKey) : (q.add j).Sound :=
  sound_iff.mpr fun k => ⟨(h.sole k).add j, (h.prompt k).add j⟩

/-- Readiness looks at nothing that a delayed request changes. -/
theorem Sound.delay (h : q.Sound) (delayed : List Delayed) (backoff : Backoff PromotionKey) :
    ({ q with delayed, backoff } : WorkQueue).Sound :=
  ⟨h.nodup, h.mem_ready⟩

theorem kept_sound : Kept Sound := ⟨Sound.add, Sound.delay⟩

theorem Sound.addAfter (h : q.Sound) (now : Instant) (k : PromotionKey) (delay : Duration) :
    (q.addAfter now k delay).Sound := kept_sound.addAfter h now k delay

theorem Sound.addRateLimited (h : q.Sound) (now : Instant) (k : PromotionKey) (stretch : Duration) :
    (q.addRateLimited now k stretch).Sound := kept_sound.addRateLimited h now k stretch

theorem Sound.forget (h : q.Sound) (k : PromotionKey) : (q.forget k).Sound := h.delay q.delayed _

theorem Sound.ripen (h : q.Sound) (now : Instant) : (q.ripen now).Sound := kept_sound.ripen h now

theorem Sound.take (h : q.Sound) : q.take.2.Sound :=
  sound_iff.mpr fun k => ⟨(h.sole k).take, (h.prompt k).take⟩

theorem Sound.done (h : q.Sound) (hk : k ∈ q.held) : (q.done k).Sound :=
  sound_iff.mpr fun j => ⟨(h.sole j).done fun e => e ▸ hk, (h.prompt j).done⟩

-- ---------------------------------------------------------------------------
-- Keys that are awaited
-- ---------------------------------------------------------------------------

/-- A queue awaits a key that was asked for and not handed out since, or that will be asked for when
its request falls due. -/
def Awaits (q : WorkQueue) (k : PromotionKey) : Prop := k ∈ q.dirty ∨ ∃ d ∈ q.delayed, d.key = k

theorem mem_dirty_add (hc : q.closed = false) : j ∈ (q.add k).dirty ↔ j = k ∨ j ∈ q.dirty := by
  unfold add
  split
  · next hd =>
    have hk : k ∈ q.dirty := by simpa [hc] using hd
    exact ⟨.inr, fun h => h.elim (fun e => e ▸ hk) id⟩
  · split <;> simp

theorem awaits_add (hc : q.closed = false) : (q.add k).Awaits j ↔ j = k ∨ q.Awaits j := by
  simp only [Awaits, mem_dirty_add hc, delayed_add, or_assoc]

theorem mem_schedule {d x : Delayed} {l : List Delayed} : x ∈ schedule d l ↔ x = d ∨ x ∈ l := by
  induction l with
  | nil => simp [schedule]
  | cons e rest ih =>
    simp only [schedule]
    split
    · simp only [List.mem_cons, ih]
      exact or_left_comm
    · simp

theorem awaits_addAfter (hc : q.closed = false) (now : Instant) (delay : Duration) :
    (q.addAfter now k delay).Awaits j ↔ j = k ∨ q.Awaits j := by
  unfold addAfter
  split
  · exact awaits_add hc
  · rw [if_neg (by simp [hc])]
    simp only [Awaits, mem_schedule]
    constructor
    · rintro (h | ⟨d, rfl | hd, rfl⟩)
      · exact .inr (.inl h)
      · exact .inl rfl
      · exact .inr (.inr ⟨d, hd, rfl⟩)
    · rintro (rfl | h | ⟨d, hd, rfl⟩)
      · exact .inr ⟨_, .inl rfl, rfl⟩
      · exact .inl h
      · exact .inr ⟨d, .inr hd, rfl⟩

theorem awaits_addRateLimited (hc : q.closed = false) (now : Instant) (stretch : Duration) :
    (q.addRateLimited now k stretch).Awaits j ↔ j = k ∨ q.Awaits j := by
  let counted : WorkQueue := { q with backoff := (q.backoff.record k stretch).2 }
  have hcounted : counted.closed = false := hc
  exact awaits_addAfter hcounted now (q.backoff.record k stretch).1

theorem awaits_foldl_add (keys : List PromotionKey) (hc : q.closed = false) :
    (keys.foldl add q).Awaits j ↔ j ∈ keys ∨ q.Awaits j := by
  induction keys generalizing q with
  | nil => simp
  | cons k keys ih =>
    rw [List.foldl_cons, ih ((closed_add q k).trans hc), awaits_add hc, List.mem_cons, or_assoc,
      or_left_comm]

theorem awaits_ripen (hc : q.closed = false) (now : Instant) :
    (q.ripen now).Awaits j ↔ q.Awaits j := by
  let waiting : WorkQueue := { q with delayed := q.delayed.dropWhile (·.due ≤ now) }
  have hwaiting : waiting.closed = false := hc
  refine (awaits_foldl_add _ hwaiting).trans ?_
  have hsplit : ∀ d, d ∈ q.delayed ↔ d ∈ q.delayed.takeWhile (·.due ≤ now) ∨
      d ∈ q.delayed.dropWhile (·.due ≤ now) := fun d => by
    rw [← List.mem_append, List.takeWhile_append_dropWhile]
  simp only [Awaits, List.mem_map, hsplit, waiting]
  grind

theorem awaits_take (ht : q.take = (some k, q')) :
    q.Awaits j ↔ j = k ∧ q.Awaits k ∨ q'.Awaits j := by
  rcases take_cases q with ⟨-, h⟩ | ⟨k', rest, hr, h⟩
  · rw [h] at ht; cases ht
  · rw [h] at ht
    obtain ⟨rfl, rfl⟩ := Prod.mk.inj ht |>.imp Option.some.inj id
    by_cases hj : j = k'
    · subst hj; simp [Awaits]
    · simp [Awaits, hj]

@[simp] theorem held_done (q : WorkQueue) (k : PromotionKey) :
    (q.done k).held = q.held.filter (· ≠ k) := by
  unfold done
  simp only
  split <;> rfl

@[simp] theorem closed_done (k : PromotionKey) : (q.done k).closed = q.closed := by
  unfold done
  simp only
  split <;> rfl

theorem awaits_done : (q.done k).Awaits j ↔ q.Awaits j := by
  unfold done
  simp only
  split <;> rfl

theorem Sound.idle (h : q.Sound) (hi : q.isIdle = true) : q.held = [] ∧ ∀ k, ¬ q.Awaits k := by
  simp only [isIdle, Bool.and_eq_true, List.isEmpty_iff] at hi
  obtain ⟨⟨hready, hheld⟩, hdelayed⟩ := hi
  refine ⟨hheld, ?_⟩
  rintro k (hd | ⟨d, hd, -⟩)
  · have hm := (h.mem_ready k).mpr ⟨hd, by rw [hheld]; exact List.not_mem_nil⟩
    rw [hready] at hm
    cases hm
  · rw [hdelayed] at hd
    cases hd

-- ---------------------------------------------------------------------------
-- Handing out a key
-- ---------------------------------------------------------------------------

theorem tryGet_none (h : q.tryGet now = (none, q')) : q' = q.ripen now := by
  rcases take_cases (q.ripen now) with ⟨-, ht⟩ | ⟨k, rest, -, ht⟩
  · rw [tryGet, ht] at h
    exact (Prod.mk.inj h).2.symm
  · rw [tryGet, ht] at h
    cases h

theorem tryGet_some (hs : q.Sound) (hc : q.closed = false) (h : q.tryGet now = (some k, q')) :
    k ∉ q.held ∧ (∀ j, j ∈ q'.held ↔ j = k ∨ j ∈ q.held) ∧ q'.closed = false ∧ q'.Sound ∧
      ∀ j, q.Awaits j ↔ j = k ∨ q'.Awaits j := by
  have hsound := (hs.ripen now).take
  have hready := (hs.ripen now).mem_ready k
  have hawaits := fun j => awaits_take (j := j) h
  rw [show (q.ripen now).take = (some k, q') from h] at hsound
  rcases take_cases (q.ripen now) with ⟨-, ht⟩ | ⟨k', rest, hr, ht⟩
  · rw [tryGet, ht] at h
    cases h
  rw [tryGet, ht] at h
  obtain ⟨rfl, rfl⟩ := (Prod.mk.inj h).imp Option.some.inj id
  rw [hr, held_ripen] at hready
  obtain ⟨hdirty, hheld⟩ := hready.mp List.mem_cons_self
  refine ⟨hheld, fun j => ?_, (closed_ripen now).trans hc, hsound, fun j => ?_⟩
  · by_cases hj : j = k' <;> simp [hj]
  · have hk : (q.ripen now).Awaits k' := .inl hdirty
    rw [← awaits_ripen hc now, hawaits j]
    simp [hk]

end StageGate.WorkQueue
