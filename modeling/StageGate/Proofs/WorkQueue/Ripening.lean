import Mathlib.Data.List.Induction
import StageGate.Proofs.StableSort
import StageGate.Proofs.WorkQueue.Requests

/-!
# Requests ripen in order

Requests lie in wait by due time, and those that fall due together by the order in which they were
made. When a worker asks for a key, those that are due leave, and their keys line up in that order
behind the ready ones, but for keys that were asked for already and keys that a worker holds. Main
statement: `ripe_in_order`. Nor does a key come out before a request for it is due, unless someone
gave it back who did not hold it: `handed_out_early`.
-/

namespace StageGate.WorkQueue

variable {q : WorkQueue} {d : Delayed} {j k : PromotionKey} {keys : List PromotionKey}
  {now : Instant} {backoff : Backoff PromotionKey}

def isNew (q : WorkQueue) (k : PromotionKey) : Bool := !q.dirty.contains k && !q.held.contains k

theorem isNew_iff : q.isNew k = true ↔ k ∉ q.dirty ∧ k ∉ q.held := by simp [isNew]

-- ---------------------------------------------------------------------------
-- The keys that ripen together
-- ---------------------------------------------------------------------------

theorem add_of_new (hc : q.closed = false) (hk : q.isNew k = true) :
    q.add k = { q with dirty := k :: q.dirty, ready := q.ready ++ [k] } := by
  obtain ⟨hdirty, hheld⟩ := isNew_iff.mp hk
  simp [add, hc, hdirty, hheld]

theorem add_of_not_new (hk : q.isNew k = false) :
    (q.add k).ready = q.ready ∧ (q.add k).isNew = q.isNew := by
  have hold : k ∈ q.dirty ∨ k ∈ q.held := by
    have hnot : ¬ (k ∉ q.dirty ∧ k ∉ q.held) := fun h => by simp [isNew_iff.mpr h] at hk
    tauto
  unfold add
  split
  · exact ⟨rfl, rfl⟩
  next hd =>
    have hheld : k ∈ q.held := hold.resolve_left fun hm => hd (by simp [hm])
    rw [if_pos (by simpa using hheld)]
    refine ⟨rfl, funext fun j => ?_⟩
    by_cases hj : j = k
    · subst hj; simp [isNew, hheld]
    · simp [isNew, hj]

theorem ready_foldl_add (hc : q.closed = false) :
    (keys.foldl add q).ready = q.ready ++ (keys.filter q.isNew).eraseDups := by
  induction keys generalizing q with
  | nil => simp
  | cons k keys ih =>
    rw [List.foldl_cons, ih ((closed_add q k).trans hc)]
    cases hk : q.isNew k with
    | false =>
      obtain ⟨hready, hnew⟩ := add_of_not_new hk
      rw [hready, hnew, List.filter_cons_of_neg (by simp [hk])]
    | true =>
      have hnew : (q.add k).isNew = fun j => q.isNew j && !(j == k) := funext fun j => by
        rw [add_of_new hc hk]
        by_cases hj : j = k <;> simp [isNew, hj]
      rw [hnew, add_of_new hc hk, List.filter_cons_of_pos hk, List.eraseDups_cons,
        List.filter_filter]
      simp [Bool.and_comm]

theorem ready_ripen (h : ByDue q.delayed) (hc : q.closed = false) (now : Instant) :
    (q.ripen now).ready = q.ready ++
      (((q.delayed.filter (·.due ≤ now)).map Delayed.key).filter q.isNew).eraseDups := by
  let waiting : WorkQueue := { q with delayed := q.delayed.dropWhile (·.due ≤ now) }
  have hwaiting : waiting.closed = false := hc
  refine (ready_foldl_add hwaiting).trans ?_
  rw [(h.split now).1]
  rfl

theorem ready_take (q : WorkQueue) : q.take.1.toList ++ q.take.2.ready = q.ready := by
  rcases take_cases q with ⟨hr, ht⟩ | ⟨k, rest, hr, ht⟩
  · rw [ht]
    rfl
  · rw [ht, hr]
    rfl

-- ---------------------------------------------------------------------------
-- The order of what lies in wait
-- ---------------------------------------------------------------------------

theorem before_due :
    Backlog.before (compareOn Delayed.due) = fun d e => decide (d.due ≤ e.due) := by
  funext d e
  rw [Bool.eq_iff_iff, Backlog.before_iff, decide_eq_true_iff]
  exact Nat.compare_ne_gt

theorem ranks_due : Ranks fun d e : Delayed => decide (d.due ≤ e.due) :=
  before_due ▸ Backlog.ranks_before (compareOn Delayed.due)

theorem schedule_eq (d : Delayed) (l : List Delayed) :
    schedule d l = Backlog.insertBehind (compareOn Delayed.due) d l := by
  induction l with
  | nil => rfl
  | cons e rest ih =>
    have hlate : compareOn Delayed.due e d = .gt ↔ ¬ e.due ≤ d.due :=
      Nat.compare_eq_gt.trans Nat.not_le.symm
    simp only [schedule, Backlog.insertBehind, hlate, ite_not, ih]

theorem schedule_mergeSort (d : Delayed) (l : List Delayed) :
    schedule d (l.mergeSort fun d e => d.due ≤ e.due) =
      (l ++ [d]).mergeSort fun d e => d.due ≤ e.due := by
  rw [schedule_eq, ← before_due]
  exact Backlog.insertBehind_mergeSort (before_due ▸ ranks_due) d l

namespace InUse

variable {u : InUse} {c : Call} {calls : List Call}

def ripens (u : InUse) (c : Call) (d : Delayed) : Bool :=
  match c with
  | .tryGet => d.due ≤ u.now
  | _ => false

/-- The requests that were put into wait and have not ripened since, in the order of the calls. -/
def inWait (u : InUse) (calls : List Call) : List Delayed :=
  remaining (fun m => m.state.put? m.act) (fun m => m.state.ripens m.act) (u.log calls)

theorem ripe_eq (u : InUse) (c : Call) : u.ripe c = u.queue.delayed.filter (u.ripens c) := by
  cases c with
  | tryGet => rfl
  | _ => simp [ripe, ripens]

theorem mem_ripe : d ∈ u.ripe c ↔ d ∈ u.queue.delayed ∧ c = .tryGet ∧ d.due ≤ u.now := by
  cases c <;> simp [ripe]

theorem delayed_perform (h : u.Live) (ho : c ≠ .close) : (u.perform c).queue.delayed =
    (u.put? c).toList.foldr schedule (u.queue.delayed.filter (!u.ripens c ·)) := by
  have stays (hr : u.ripe c = []) : u.queue.delayed.filter (!u.ripens c ·) = u.queue.delayed := by
    rw [ripe_eq, List.filter_eq_nil_iff] at hr
    exact List.filter_eq_self.mpr fun d hd => by simpa using hr d hd
  cases acts (u := u) ho with
  | requested key delay backoff request ripe handed next =>
    rw [next, stays ripe, put?, request]
    by_cases hz : delay.isZero = true
    · simp [addAfter, hz, recounted]
    · simp [addAfter, hz, recounted, h.opened]
  | taken call next =>
    subst call
    have hlate : (u.queue.delayed.filter fun d => u.now < d.due) =
        u.queue.delayed.filter (!u.ripens .tryGet ·) :=
      List.filter_congr fun d _ => by simp only [ripens, ← decide_not, Nat.not_le]
    rw [next, tryGet, (take_spec _).1, delayed_ripen h.byDue, hlate]
    rfl
  | givenBack key call next =>
    subst call
    rw [next, (done_spec _ _).1, stays rfl]
    rfl
  | noted backoff request ripe handed next =>
    rw [next, stays ripe, put?, request]
    rfl

theorem Live.after (h : u.Live) (opened : .close ∉ calls) : (u.after calls).Live := by
  induction calls generalizing u with
  | nil => exact h
  | cons c calls ih =>
    obtain ⟨hc, hcalls⟩ : c ≠ .close ∧ .close ∉ calls := by simpa [eq_comm] using opened
    exact ih (h.perform hc) hcalls

theorem after_concat (u : InUse) (calls : List Call) (c : Call) :
    u.after (calls ++ [c]) = (u.after calls).perform c := by
  simp [InUse.after]

theorem log_concat (u : InUse) (calls : List Call) (c : Call) :
    u.log (calls ++ [c]) = u.log calls ++ [⟨u.after calls, c⟩] := moments_concat calls c

theorem inWait_concat (u : InUse) (calls : List Call) (c : Call) : u.inWait (calls ++ [c]) =
    (u.inWait calls).filter (!(u.after calls).ripens c ·) ++ ((u.after calls).put? c).toList := by
  rw [inWait, log_concat, remaining_concat]
  rfl

/-- What lies in wait is the stable sort by due time of what was put there and has not ripened. -/
theorem delayed_after (h : u.Live) (empty : u.queue.delayed = []) (opened : .close ∉ calls) :
    (u.after calls).queue.delayed =
      (u.inWait calls).mergeSort fun d e => d.due ≤ e.due := by
  induction calls using List.reverseRecOn with
  | nil =>
    have hnone : u.inWait [] = [] := rfl
    rw [hnone, List.mergeSort_nil]
    exact empty
  | append_singleton calls c ih =>
    obtain ⟨hcalls, hc⟩ : .close ∉ calls ∧ c ≠ .close := by simpa [eq_comm] using opened
    rw [after_concat, delayed_perform (h.after hcalls) hc, ih hcalls, inWait_concat,
      ranks_due.filter_mergeSort]
    cases (u.after calls).put? c with
    | none => simp
    | some d => exact schedule_mergeSort d _

-- ---------------------------------------------------------------------------
-- Requests that are not met yet
-- ---------------------------------------------------------------------------

def asksFor? (u : InUse) (k : PromotionKey) (c : Call) : Option Instant :=
  match u.request? c with
  | some (key, delay) => if key = k then some (u.now + delay.nanos) else none
  | none => none

def meets (u : InUse) (k : PromotionKey) (c : Call) (due : Instant) : Bool :=
  u.handed? c = some k && due ≤ u.now

/-- When the requests for a key fall due that no hand-out has met since. -/
def unmet (k : PromotionKey) : List (Moment InUse Call) → List Instant :=
  remaining (fun m => m.state.asksFor? k m.act) fun m => m.state.meets k m.act

theorem unmet_concat (k : PromotionKey) (earlier : List (Moment InUse Call)) (u : InUse)
    (c : Call) : unmet k (earlier ++ [⟨u, c⟩]) =
      (unmet k earlier).filter (!u.meets k c ·) ++ (u.asksFor? k c).toList :=
  remaining_concat _ _ earlier ⟨u, c⟩

/-- Every key that is dirty and every request in wait goes back to a request that is not met. -/
structure Founded (u : InUse) (earlier : List (Moment InUse Call)) : Prop where
  dirty : ∀ k ∈ u.queue.dirty, ∃ due ∈ unmet k earlier, due ≤ u.now
  delayed : ∀ d ∈ u.queue.delayed, d.due ∈ unmet d.key earlier

theorem now_le_perform (u : InUse) (c : Call) : u.now ≤ (u.perform c).now := by
  cases c with
  | wait nanos => exact Nat.le_add_right _ _
  | _ => exact Nat.le_refl _

theorem ripens_of_meets (h : u.meets d.key c d.due = true) : u.ripens c d = true := by
  cases c with
  | tryGet => exact (Bool.and_eq_true_iff.mp h).2
  | _ => cases h

theorem asksFor?_of_asked (h : u.asked? c = some k) : u.asksFor? k c = some u.now := by
  unfold asked? at h
  unfold asksFor?
  cases hr : u.request? c with
  | none => simp [hr] at h
  | some request =>
    obtain ⟨key, delay⟩ := request
    obtain ⟨hzero, rfl⟩ : delay.nanos = 0 ∧ key = k := by simpa [hr, Duration.isZero] using h
    simp [hzero]

theorem asksFor?_of_put (h : u.put? c = some d) : u.asksFor? d.key c = some d.due := by
  unfold put? at h
  unfold asksFor?
  cases hr : u.request? c with
  | none => simp [hr] at h
  | some request =>
    obtain ⟨key, delay⟩ := request
    obtain ⟨-, rfl⟩ : delay.isZero = false ∧ (⟨u.now + delay.nanos, key⟩ : Delayed) = d := by
      simpa [hr] using h
    simp

theorem Founded.perform {earlier : List (Moment InUse Call)} (h : u.Live) (ho : c ≠ .close)
    (hf : Founded u earlier) : Founded (u.perform c) (earlier ++ [⟨u, c⟩]) where
  dirty k hk := by
    obtain ⟨hmade, hunmet⟩ := (mem_dirty_perform h ho).mp hk
    have stays {due : Instant} (hdue : due ∈ unmet k earlier) (hnow : due ≤ u.now) :
        ∃ due ∈ unmet k (earlier ++ [⟨u, c⟩]), due ≤ (u.perform c).now := by
      refine ⟨due, ?_, Nat.le_trans hnow (now_le_perform u c)⟩
      rw [unmet_concat]
      exact List.mem_append_left _ (List.mem_filter.mpr ⟨hdue, by simp [meets, hunmet]⟩)
    rcases hmade with ha | ⟨d, hd, rfl⟩ | hdirty
    · refine ⟨u.now, ?_, now_le_perform u c⟩
      rw [unmet_concat, asksFor?_of_asked ha]
      simp
    · obtain ⟨hwait, -, hdue⟩ := mem_ripe.mp hd
      exact stays (hf.delayed d hwait) hdue
    · obtain ⟨due, hdue, hnow⟩ := hf.dirty k hdirty
      exact stays hdue hnow
  delayed d hd := by
    have hmade : u.put? c = some d ∨ d ∈ u.queue.delayed ∧ u.ripens c d = false := by
      rw [delayed_perform h ho] at hd
      cases hput : u.put? c with
      | none => exact .inr (by simpa [hput] using hd)
      | some e =>
        rw [hput] at hd
        rcases mem_schedule.mp hd with rfl | hd
        · exact .inl rfl
        · exact .inr (by simpa using hd)
    rw [unmet_concat]
    rcases hmade with hput | ⟨hwait, hlate⟩
    · rw [asksFor?_of_put hput]
      simp
    · have hunmet : u.meets d.key c d.due = false :=
        Bool.eq_false_iff.mpr fun hm => by simp [ripens_of_meets hm] at hlate
      exact List.mem_append_left _ (List.mem_filter.mpr ⟨hf.delayed d hwait, by simp [hunmet]⟩)

theorem founded_after (backoff : Backoff PromotionKey) (now : Instant) (opened : .close ∉ calls) :
    Founded ((fresh backoff now).after calls) ((fresh backoff now).log calls) := by
  induction calls using List.reverseRecOn with
  | nil => exact ⟨by simp [fresh, InUse.after], by simp [fresh, InUse.after]⟩
  | append_singleton calls c ih =>
    obtain ⟨hcalls, hc⟩ : .close ∉ calls ∧ c ≠ .close := by simpa [eq_comm] using opened
    rw [after_concat, log_concat]
    exact (ih hcalls).perform ((live_fresh backoff now).after hcalls) hc

-- ---------------------------------------------------------------------------
-- Keys that are given back too often
-- ---------------------------------------------------------------------------

/-- The key that a call gives back although it is not held. -/
def surplus? (u : InUse) : Call → Option PromotionKey
  | .done key => if u.queue.held.contains key then none else some key
  | _ => none

def Surplus (k : PromotionKey) (earlier : List (Moment InUse Call)) : Prop :=
  ∃ m ∈ earlier, m.state.surplus? m.act = some k

theorem kept_perform {I : WorkQueue → Prop} (kept : Kept I) (take : ∀ {q}, I q → I q.take.2)
    (h : I u.queue) (ho : c ≠ .close) (done : ∀ k, c = .done k → I (u.queue.done k)) :
    I (u.perform c).queue := by
  cases acts (u := u) ho with
  | requested key delay backoff request ripe handed next =>
    rw [next]
    exact kept.addAfter (kept.delay h u.queue.delayed backoff) _ _ _
  | taken call next =>
    rw [next]
    exact take (kept.ripen h u.now)
  | givenBack key call next =>
    rw [next]
    exact done key call
  | noted backoff request ripe handed next =>
    rw [next]
    exact kept.delay h u.queue.delayed backoff

theorem invariant_perform {I : WorkQueue → Prop} (kept : Kept I)
    (take : ∀ {q}, I q → I q.take.2) (close : ∀ {q}, I q → I q.close) (h : I u.queue)
    (done : ∀ k, c = .done k → I (u.queue.done k)) : I (u.perform c).queue := by
  by_cases hc : c = .close
  · subst hc
    exact close h
  · exact kept_perform kept take h hc done

theorem sole_after (h : u.queue.Sole k) (opened : .close ∉ calls) :
    (u.after calls).queue.Sole k ∨ Surplus k (u.log calls) := by
  induction calls using List.reverseRecOn with
  | nil => exact .inl h
  | append_singleton calls c ih =>
    obtain ⟨hcalls, hc⟩ : .close ∉ calls ∧ c ≠ .close := by simpa [eq_comm] using opened
    rw [after_concat, log_concat]
    rcases ih hcalls with hs | ⟨m, hm, hsurplus⟩
    · by_cases hsurplus : (u.after calls).surplus? c = some k
      · exact .inr ⟨⟨u.after calls, c⟩, by simp, hsurplus⟩
      · refine .inl (kept_perform (Sole.kept k) Sole.take hs hc fun j hj => hs.done ?_)
        rintro rfl
        exact Decidable.byContradiction fun hk => hsurplus (by simp [hj, surplus?, hk])
    · exact .inr ⟨m, List.mem_append_left _ hm, hsurplus⟩

/-- A key comes out no earlier than some request for it is due that was not met yet, unless it was
given back too often. -/
theorem due_of_handed {earlier later : List (Moment InUse Call)} {n : Moment InUse Call}
    (opened : .close ∉ calls) (hcut : (fresh backoff now).log calls = earlier ++ n :: later)
    (handed : n.state.handed? n.act = some k) :
    (∃ due ∈ unmet k earlier, due ≤ n.state.now) ∨ Surplus k earlier := by
  obtain ⟨first, rest, rfl, rfl, hstate, -⟩ := moments_cut hcut
  have hfirst : .close ∉ first := fun hm => opened (List.mem_append_left _ hm)
  have hlive : n.state.Live := hstate ▸ (live_fresh backoff now).after hfirst
  have hfounded : Founded n.state ((fresh backoff now).log first) :=
    hstate ▸ founded_after backoff now hfirst
  have hsole : (fresh backoff now).queue.Sole k := (sound_start backoff).sole k
  rcases sole_after hsole hfirst with hs | hs
  · refine .inl ?_
    rcases dirty_of_handed hlive (hstate ▸ hs) handed with ⟨d, hd, rfl⟩ | hdirty
    · obtain ⟨hwait, -, hdue⟩ := mem_ripe.mp hd
      exact ⟨d.due, hfounded.delayed d hwait, hdue⟩
    · exact hfounded.dirty k hdirty
  · exact .inr hs

-- ---------------------------------------------------------------------------
-- Keys that a worker holds
-- ---------------------------------------------------------------------------

end InUse

structure Parked (q : WorkQueue) (k : PromotionKey) : Prop where
  dirty : k ∈ q.dirty
  held : k ∈ q.held
  unready : k ∉ q.ready

namespace Parked

theorem add (h : q.Parked k) (j : PromotionKey) : (q.add j).Parked k := by
  unfold WorkQueue.add
  split
  · exact h
  next hd =>
    split
    · exact ⟨List.mem_cons_of_mem _ h.dirty, h.held, h.unready⟩
    · have hne : k ≠ j := by
        rintro rfl
        exact hd (by simp [h.dirty])
      exact ⟨List.mem_cons_of_mem _ h.dirty, h.held, by simp [h.unready, hne]⟩

theorem kept (k : PromotionKey) : Kept (Parked · k) where
  add h j := h.add j
  delay h _ _ := ⟨h.dirty, h.held, h.unready⟩

theorem take (h : q.Parked k) : q.take.2.Parked k := by
  rcases take_cases q with ⟨-, ht⟩ | ⟨j, rest, hr, ht⟩
  · rw [ht]; exact h
  · rw [ht]
    obtain ⟨hne, hrest⟩ : k ≠ j ∧ k ∉ rest := by simpa [hr] using h.unready
    exact ⟨by simp [h.dirty, hne], by simp [h.held, hne], hrest⟩

theorem done_other (h : q.Parked k) (hj : j ≠ k) : (q.done j).Parked k := by
  unfold WorkQueue.done
  simp only
  split
  · exact ⟨h.dirty, by simp [h.held, Ne.symm hj], by simp [h.unready, Ne.symm hj]⟩
  · exact ⟨h.dirty, by simp [h.held, Ne.symm hj], h.unready⟩

theorem ready_done (h : q.Parked k) : (q.done k).ready = q.ready ++ [k] := by
  simp [WorkQueue.done, h.dirty]

end Parked

namespace InUse

variable {u : InUse} {c : Call} {calls : List Call}

theorem parked_after (h : u.queue.Parked k) (opened : .close ∉ calls) (kept : .done k ∉ calls) :
    (u.after calls).queue.Parked k := by
  induction calls generalizing u with
  | nil => exact h
  | cons c calls ih =>
    obtain ⟨hc, hcalls⟩ : c ≠ .close ∧ .close ∉ calls := by simpa [eq_comm] using opened
    obtain ⟨hdone, hrest⟩ : c ≠ .done k ∧ .done k ∉ calls := by simpa [eq_comm] using kept
    refine ih (kept_perform (Parked.kept k) Parked.take h hc fun j hj => ?_) hcalls hrest
    refine h.done_other ?_
    rintro rfl
    exact hdone hj

theorem parked_of_ripe (h : u.Live) (hd : d ∈ u.ripe .tryGet) (held : d.key ∈ u.queue.held)
    (unready : d.key ∉ u.queue.ready) : (u.perform .tryGet).queue.Parked d.key := by
  have hripe : (u.queue.ripen u.now).Parked d.key := by
    refine ⟨(mem_dirty_ripen h.byDue h.opened).mpr (.inr ⟨d, hd, rfl⟩), ?_, fun hr => ?_⟩
    · rwa [held_ripen]
    · rw [ready_ripen h.byDue h.opened, List.mem_append, List.mem_eraseDups, List.mem_filter,
        isNew_iff] at hr
      exact hr.elim unready fun hnew => hnew.2.2 held
  exact hripe.take

end InUse

open InUse in
/-- After any calls that leave a new queue open, whatever keys they give back: a key was handed out
only when a request for it had fallen due that no hand-out had met since, unless it had been given
back when it was not held. In wait are the requests that were put off and have not ripened since, by
due time and then by the order of the calls. When a worker asks for a key, those that are due leave,
and each of their keys is dirty or handed out. The keys line up in that order behind the ready ones,
once each and without those that were dirty or held before. One that is held is parked until it is
given back and lines up then, again unless it had been given back when it was not held. -/
theorem ripe_in_order {backoff : Backoff PromotionKey} {now : Instant} {calls : List Call}
    (opened : .close ∉ calls) :
    let start := fresh backoff now
    let u := start.after calls
    let next := u.perform .tryGet
    let ripe := ((start.inWait calls).filter (·.due ≤ u.now)).mergeSort fun d e => d.due ≤ e.due
    (∀ earlier n later k, start.log calls = earlier ++ n :: later →
      n.state.handed? n.act = some k →
      (∃ due ∈ unmet k earlier, due ≤ n.state.now) ∨ Surplus k earlier) ∧
    u.queue.delayed = (start.inWait calls).mergeSort (fun d e => d.due ≤ e.due) ∧
    next.queue.delayed = u.queue.delayed.filter (u.now < ·.due) ∧
    (∀ d ∈ ripe, d.key ∈ next.queue.dirty ∨ u.handed? .tryGet = some d.key) ∧
    (u.handed? .tryGet).toList ++ next.queue.ready =
      u.queue.ready ++ ((ripe.map Delayed.key).filter u.queue.isNew).eraseDups ∧
    ∀ d ∈ ripe, d.key ∈ u.queue.held → Surplus d.key (start.log calls) ∨
      ∀ rest, .close ∉ rest → .done d.key ∉ rest →
        let v := next.after rest
        d.key ∈ v.queue.dirty ∧ d.key ∉ v.queue.ready ∧
          (v.perform (.done d.key)).queue.ready = v.queue.ready ++ [d.key] := by
  intro start u next ripe
  have hstart : start.Live := live_fresh backoff now
  have hu : u.Live := hstart.after opened
  have hwait : u.queue.delayed = (start.inWait calls).mergeSort fun d e => d.due ≤ e.due :=
    delayed_after hstart rfl opened
  have hripe : ripe = u.ripe .tryGet := by
    show _ = u.queue.delayed.filter _
    rw [hwait, ranks_due.filter_mergeSort]
  refine ⟨fun _ _ _ _ hcut => due_of_handed opened hcut, hwait, ?_, fun d hd => ?_, ?_,
    fun d hd hheld => ?_⟩
  · show (u.queue.tryGet u.now).2.delayed = _
    rw [tryGet, (take_spec _).1, delayed_ripen hu.byDue]
  · by_cases hh : u.handed? .tryGet = some d.key
    · exact .inr hh
    · exact .inl ((mem_dirty_perform hu (by simp)).mpr ⟨.inr (.inl ⟨d, hripe ▸ hd, rfl⟩), hh⟩)
  · rw [hripe]
    exact (ready_take _).trans (ready_ripen hu.byDue hu.opened u.now)
  · have hsole : start.queue.Sole d.key := (sound_start backoff).sole d.key
    refine (sole_after hsole opened).symm.imp_right fun hs rest hopen hkept => ?_
    have hready : d.key ∉ u.queue.ready := hs.absent (.inr hheld)
    have hparked := parked_after (parked_of_ripe hu (hripe ▸ hd) hheld hready) hopen hkept
    exact ⟨hparked.dirty, hparked.unready, hparked.ready_done⟩

namespace InUse.Sample

def named (name : String) : PromotionKey := ⟨"ns", name⟩

/-- A worker holds a, and requests for a, b and c fall due, two of them for c. -/
def waves : List Call :=
  [.add (named "a"), .tryGet, .addAfter (named "c") (.ofMillis 2),
    .addAfter (named "a") (.ofMillis 2), .addAfter (named "b") (.ofMillis 1),
    .addAfter (named "c") (.ofMillis 1), .wait 2000000]

def givenBackTwice : List Call :=
  [.add key, .done key, .tryGet, .done key, .addAfter key (.ofMillis 3600000), .tryGet]

end InUse.Sample

open InUse InUse.Sample in
theorem ripe_in_order_sample :
    let u := (fresh quick 0).after waves
    .close ∉ waves ∧
    (((fresh quick 0).inWait waves).mergeSort fun d e => d.due ≤ e.due) =
      [⟨1000000, named "b"⟩, ⟨1000000, named "c"⟩, ⟨2000000, named "c"⟩, ⟨2000000, named "a"⟩] ∧
    u.handed? .tryGet = some (named "b") ∧ (u.perform .tryGet).queue.ready = [named "c"] ∧
    ((u.perform .tryGet).perform (.done (named "a"))).queue.ready = [named "c", named "a"] := by
  have hopened : Call.close ∉ waves := by simp [waves]
  obtain ⟨-, hwait, -, -, -, hparked⟩ := @ripe_in_order quick 0 waves hopened
  have hripe : (⟨2000000, named "a"⟩ : Delayed) ∈ (((fresh quick 0).inWait waves).filter
      (·.due ≤ ((fresh quick 0).after waves).now)).mergeSort fun d e => d.due ≤ e.due :=
    List.mem_mergeSort.mpr (by decide +kernel)
  have hnever : ¬ ∃ m ∈ (fresh quick 0).log waves, m.state.surplus? m.act = some (named "a") := by
    decide +kernel
  obtain ⟨-, -, hdone⟩ := (hparked _ hripe (by decide +kernel)).resolve_left hnever []
    List.not_mem_nil List.not_mem_nil
  have hnext : (((fresh quick 0).after waves).perform .tryGet).queue.ready = [named "c"] := by
    decide +kernel
  refine ⟨hopened, hwait.symm.trans (by decide +kernel), by decide +kernel, hnext, hdone.trans ?_⟩
  rw [InUse.after, List.foldl_nil, hnext]
  rfl

open InUse InUse.Sample in
/-- A key that was given back too often comes out an hour before the only request for it is due. -/
theorem handed_out_early : ∃ earlier n, .close ∉ givenBackTwice ∧
    (fresh quick 0).log givenBackTwice = earlier ++ [n] ∧ n.act = .tryGet ∧ n.state.now = 0 ∧
    unmet key earlier = [3600000000000] ∧ key ∉ n.state.queue.dirty ∧
    n.state.queue.delayed = [⟨3600000000000, key⟩] ∧ n.state.handed? n.act = some key := by
  refine ⟨(fresh quick 0).log (givenBackTwice.take 5),
    ⟨(fresh quick 0).after (givenBackTwice.take 5), .tryGet⟩, by simp [givenBackTwice], rfl, rfl,
    rfl, ?_, ?_, ?_, ?_⟩ <;> decide +kernel

end StageGate.WorkQueue
