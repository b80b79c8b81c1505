import StageGate.Proofs.WorkQueue.Ripening

/-!
# A closed queue drains

A queue that is closed takes no more requests: what is asked for is dropped, and so is what ripens.
Workers still take the keys that are ready and give back the keys they hold, which readies those that
were parked. Main statement: `drained_by_workers`. What was dirty when the queue was closed is at
any later time either handed out, and that once, or dirty still, so nothing else comes out, and all
of it has come out when no key is ready or held.
-/

namespace StageGate.WorkQueue

variable {q : WorkQueue} {k : PromotionKey} {now : Instant} {backoff : Backoff PromotionKey}

-- ---------------------------------------------------------------------------
-- Closed queues
-- ---------------------------------------------------------------------------

theorem foldl_add_of_closed (keys : List PromotionKey) (hc : q.closed = true) :
    keys.foldl add q = q := by
  induction keys with
  | nil => rfl
  | cons k keys ih => rw [List.foldl_cons, add_of_closed hc, ih]

theorem ripen_of_closed (hc : q.closed = true) (now : Instant) :
    q.ripen now = { q with delayed := q.delayed.dropWhile (·.due ≤ now) } :=
  foldl_add_of_closed _ hc

/-- Nobody waits at a closed queue: the first ready key is handed out, or the queue is drained. -/
theorem get_of_closed (hc : q.closed = true) (now : Instant) (patience : Duration) :
    q.get now patience = (q.ready.head?.elim .drained .key, (q.tryGet now).2, now) := by
  have hready : (q.ripen now).ready = q.ready := by rw [ripen_of_closed hc]
  rw [get, waitUntil]
  rcases take_cases (q.ripen now) with ⟨hr, ht⟩ | ⟨k, rest, hr, ht⟩
  · rw [hready] at hr
    simp [tryGet, ht, hr, hc]
  · rw [hready] at hr
    simp [tryGet, ht, hr]

theorem perm_dirty_take (hs : q.Sound) (distinct : q.dirty.Nodup) :
    (q.take.1.toList ++ q.take.2.dirty).Perm q.dirty := by
  rcases take_cases q with ⟨-, ht⟩ | ⟨k, rest, hr, ht⟩
  · rw [ht]
    exact .refl _
  · have hdirty : k ∈ q.dirty := ((hs.mem_ready k).mp (hr ▸ List.mem_cons_self)).1
    have hrest : q.dirty.filter (· ≠ k) = q.dirty.erase k := by
      rw [distinct.erase_eq_filter]
      exact List.filter_congr fun j _ => by by_cases hj : j = k <;> simp [hj]
    rw [ht]
    simp only [hrest]
    exact (List.perm_cons_erase hdirty).symm

-- ---------------------------------------------------------------------------
-- Dirty keys are marked once
-- ---------------------------------------------------------------------------

theorem nodup_dirty_add (h : q.dirty.Nodup) (k : PromotionKey) : (q.add k).dirty.Nodup := by
  unfold add
  split
  · exact h
  next hd =>
    have hk : k ∉ q.dirty := fun hm => hd (by simp [hm])
    split <;> exact List.nodup_cons.mpr ⟨hk, h⟩

theorem kept_nodup_dirty : Kept fun q => q.dirty.Nodup where
  add h k := nodup_dirty_add h k
  delay h _ _ := h

theorem nodup_dirty_take (h : q.dirty.Nodup) : q.take.2.dirty.Nodup := by
  rcases take_cases q with ⟨-, ht⟩ | ⟨k, rest, -, ht⟩
  · rwa [ht]
  · rw [ht]
    exact h.filter _

theorem kept_closed : Kept fun q => q.closed = true where
  add {q} h k := (closed_add q k).trans h
  delay h _ _ := h

namespace InUse

variable {u start : InUse} {c : Call} {calls : List Call}

theorem Reachable.after (h : Reachable start u)
    (allowed : ∀ m ∈ u.log calls, m.state.Allows m.act) : Reachable start (u.after calls) :=
  foldl_of_kept h fun m hm reached => reached.call m.act (allowed m hm)

theorem nodup_dirty_perform (h : u.queue.dirty.Nodup) : (u.perform c).queue.dirty.Nodup := by
  refine invariant_perform kept_nodup_dirty nodup_dirty_take id h fun k _ => ?_
  rwa [(done_spec _ k).2]

theorem Reachable.nodup_dirty (h : Reachable start u) (hs : start.queue.dirty.Nodup) :
    u.queue.dirty.Nodup := by
  induction h with
  | start => exact hs
  | call reached c allowed ih => exact nodup_dirty_perform ih

-- ---------------------------------------------------------------------------
-- Runs of a closed queue
-- ---------------------------------------------------------------------------

structure Draining (u : InUse) : Prop where
  consistent : u.Consistent
  closed : u.queue.closed = true
  distinct : u.queue.dirty.Nodup

theorem Reachable.draining (h : Reachable (fresh backoff now) u) : (u.perform .close).Draining where
  consistent := (h.consistent (steady_fresh backoff now).consistent).perform .close trivial
  closed := rfl
  distinct := h.nodup_dirty List.nodup_nil

theorem Draining.perform (h : u.Draining) (allowed : u.Allows c) : (u.perform c).Draining where
  consistent := h.consistent.perform c allowed
  closed := invariant_perform kept_closed (fun {q} h => (take_spec q).2.1.trans h) (fun _ => rfl)
    h.closed fun k _ => (closed_done k).trans h.closed
  distinct := nodup_dirty_perform h.distinct

/-- What is dirty at a call is handed out by it, or dirty after it. -/
theorem Draining.perm_dirty_perform (h : u.Draining) (c : Call) :
    ((u.handed? c).toList ++ (u.perform c).queue.dirty).Perm u.queue.dirty := by
  by_cases hc : c = .close
  · subst hc
    exact .refl _
  cases acts (u := u) hc with
  | requested key delay backoff request ripe handed next =>
    have hclosed : (u.queue.recounted backoff).closed = true := h.closed
    rw [next, handed, addAfter_of_closed hclosed]
    exact .refl _
  | taken call next =>
    subst call
    have hdirty : (u.queue.ripen u.now).dirty = u.queue.dirty := by rw [ripen_of_closed h.closed]
    have htaken := perm_dirty_take (h.consistent.sound.ripen u.now) (hdirty ▸ h.distinct)
    rw [hdirty] at htaken
    rw [next]
    exact htaken
  | givenBack key call next =>
    subst call
    rw [next, (done_spec _ _).2]
    exact .refl _
  | noted backoff request ripe handed next =>
    rw [next, handed]
    exact .refl _

theorem Draining.clean (h : u.Draining) (ready : u.queue.ready = []) (held : u.queue.held = []) :
    u.queue.dirty = [] := by
  refine List.eq_nil_iff_forall_not_mem.mpr fun k hk => ?_
  have hready : k ∈ u.queue.ready := (h.consistent.sound.mem_ready k).mpr ⟨hk, by simp [held]⟩
  simp [ready] at hready

section
variable (h : u.Draining) (allowed : ∀ m ∈ u.log calls, m.state.Allows m.act)
include h allowed

theorem Draining.after : (u.after calls).Draining :=
  foldl_of_kept h fun m hm hd => hd.perform (allowed m hm)

theorem Draining.perm_dirty_after :
    (u.handedOut calls ++ (u.after calls).queue.dirty).Perm u.queue.dirty := by
  induction calls generalizing u with
  | nil => exact .refl _
  | cons c calls ih =>
    obtain ⟨hc : u.Allows c, hcalls⟩ := List.forall_mem_cons.mp allowed
    have hhanded : u.handedOut (c :: calls) =
        (u.handed? c).toList ++ (u.perform c).handedOut calls :=
      filterMap_log_cons handed? u c calls
    rw [hhanded, List.append_assoc]
    exact ((ih (h.perform hc) hcalls).append_left _).trans (h.perm_dirty_perform c)

end

end InUse

open InUse in
/-- A queue in use is closed, and the calls that follow give back only keys that some worker holds.
Then the keys that were dirty at that time, each marked once, are those handed out since and those
dirty still, taken together. So each key was handed out at most once, and only if it was dirty; all
of them have been handed out whenever no key is ready or held; and there were no more hand-outs than
dirty keys, and nothing is ready after that many. A worker that waits for a key gets the first
ready one at once, as any worker would that asks for one, or learns that the queue is drained. -/
theorem drained_by_workers {u : InUse} {calls : List Call}
    (reached : Reachable (fresh backoff now) u)
    (allowed : ∀ m ∈ (u.perform .close).log calls, m.state.Allows m.act) :
    let closed := u.perform .close
    let out := closed.handedOut calls
    let v := closed.after calls
    u.queue.dirty.Nodup ∧ (out ++ v.queue.dirty).Perm u.queue.dirty ∧
    out.Nodup ∧ (∀ k ∈ out, k ∈ u.queue.dirty) ∧
    (v.queue.ready = [] → v.queue.held = [] → ∀ k ∈ u.queue.dirty, k ∈ out) ∧
    out.length ≤ u.queue.dirty.length ∧
    (out.length = u.queue.dirty.length → v.queue.ready = []) ∧
    ∀ patience, v.queue.get v.now patience =
      (v.queue.ready.head?.elim .drained .key, (v.perform .tryGet).queue, v.now) := by
  intro closed out v
  have hclosed : closed.Draining := reached.draining
  have hv : v.Draining := hclosed.after allowed
  have hsplit : (out ++ v.queue.dirty).Perm u.queue.dirty := hclosed.perm_dirty_after allowed
  have hdistinct : u.queue.dirty.Nodup := hclosed.distinct
  have hlength : out.length + v.queue.dirty.length = u.queue.dirty.length := by
    rw [← List.length_append, hsplit.length_eq]
  refine ⟨hdistinct, hsplit, (List.nodup_append.mp (hsplit.nodup_iff.mpr hdistinct)).1, fun k hk => ?_,
    fun hready hheld k hk => ?_, by omega, fun hall => ?_, fun patience => ?_⟩
  · exact hsplit.subset (List.mem_append_left _ hk)
  · have hclean : v.queue.dirty = [] := hv.clean hready hheld
    rw [hclean, List.append_nil] at hsplit
    exact hsplit.mem_iff.mpr hk
  · have hclean : v.queue.dirty = [] := List.length_eq_zero_iff.mp (by omega)
    refine List.eq_nil_iff_forall_not_mem.mpr fun k hk => ?_
    have hdirty : k ∈ v.queue.dirty := ((hv.consistent.sound.mem_ready k).mp hk).1
    simp [hclean] at hdirty
  · exact get_of_closed hv.closed v.now patience

namespace InUse.Sample

def atWork : List Call :=
  [.add (named "a"), .tryGet, .add (named "a"), .add (named "b"),
    .addAfter (named "c") (.ofMillis 1)]

def lastHours : List Call :=
  [.add (named "c"), .wait 2000000, .tryGet, .done (named "a"), .add (named "a"), .tryGet,
    .done (named "b"), .done (named "a"), .tryGet]

end InUse.Sample

open InUse InUse.Sample in
theorem drained_by_workers_sample :
    let u := (fresh quick 0).after atWork
    let closed := u.perform .close
    let v := closed.after lastHours
    Reachable (fresh quick 0) u ∧ u.queue.dirty = [named "b", named "a"] ∧
    (closed.handedOut lastHours).Nodup ∧ (closed.handedOut lastHours).length ≤ 2 ∧
    named "a" ∈ closed.handedOut lastHours ∧ named "b" ∈ closed.handedOut lastHours ∧
    (v.queue.get v.now (.ofMillis 1)).1 = .drained := by
  intro u closed v
  have horderly : ∀ m ∈ (fresh quick 0).log atWork, m.state.Orderly m.act := by decide +kernel
  have reached : Reachable (fresh quick 0) u :=
    Reachable.start.after fun m hm => (horderly m hm).allows
  have hdirty : u.queue.dirty = [named "b", named "a"] := by decide +kernel
  have hlast : ∀ m ∈ closed.log lastHours, m.state.Orderly m.act := by decide +kernel
  obtain ⟨-, -, hdistinct, -, hall, hfew, -, hget⟩ :=
    drained_by_workers reached fun m hm => (hlast m hm).allows
  have hout : ∀ k ∈ u.queue.dirty, k ∈ closed.handedOut lastHours :=
    hall (by decide +kernel) (by decide +kernel)
  rw [hdirty] at hfew hout
  refine ⟨reached, hdirty, hdistinct, hfew, hout _ (by simp), hout _ (by simp), ?_⟩
  have hready : v.queue.ready = [] := by decide +kernel
  rw [hget, hready]
  rfl

end StageGate.WorkQueue
