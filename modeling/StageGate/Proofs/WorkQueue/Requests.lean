import StageGate.Proofs.Moments
import StageGate.Proofs.WorkQueue.Delays
import StageGate.Proofs.WorkQueue.InUse

/-!
# Requests are kept until they are met

A key is asked for at once, or by a request that lies in wait until it ripens, which it does when a
worker asks for a key and the request has fallen due. Main statement: `kept_until_handed_out`. In an
open queue whose keys come back only from workers that hold them, a key that was asked for is dirty
until it is handed out, and ready unless it is held; what was put into wait stays there until it
ripens; and a key is handed out no more often than it was asked for.
-/

namespace StageGate.WorkQueue

variable {q : WorkQueue} {d : Delayed} {j k : PromotionKey} {now : Instant} {delay : Duration}

theorem mem_dirty_addAfter (hc : q.closed = false) :
    j ∈ (q.addAfter now k delay).dirty ↔ delay.isZero = true ∧ j = k ∨ j ∈ q.dirty := by
  unfold addAfter
  split
  · next hz => simp [hz, mem_dirty_add hc]
  · next hz =>
    rw [if_neg (by simp [hc])]
    simp [hz]

theorem perm_delayed_addAfter (hc : q.closed = false) :
    (q.addAfter now k delay).delayed.Perm
      (q.delayed ++ if delay.isZero then [] else [⟨now + delay.nanos, k⟩]) := by
  unfold addAfter
  split
  · simp
  · rw [if_neg (by simp [hc])]
    exact (perm_schedule _ _).trans (List.perm_append_singleton _ _).symm

theorem ByDue.addAfter (h : ByDue q.delayed) : ByDue (q.addAfter now k delay).delayed := by
  unfold WorkQueue.addAfter
  split
  · rwa [delayed_add]
  · split
    · exact h
    · exact h.schedule _

def recounted (q : WorkQueue) (backoff : Backoff PromotionKey) : WorkQueue := { q with backoff }

theorem take_spec (q : WorkQueue) : q.take.2.delayed = q.delayed ∧ q.take.2.closed = q.closed ∧
    ∀ k, k ∈ q.take.2.dirty ↔ k ∈ q.dirty ∧ q.take.1 ≠ some k := by
  rcases take_cases q with ⟨-, ht⟩ | ⟨key, rest, -, ht⟩
  · rw [ht]
    simp
  · rw [ht]
    refine ⟨rfl, rfl, fun k => ?_⟩
    rw [List.mem_filter, decide_eq_true_iff, ne_eq, ne_eq, Option.some.injEq, eq_comm]

theorem done_spec (q : WorkQueue) (k : PromotionKey) :
    (q.done k).delayed = q.delayed ∧ (q.done k).dirty = q.dirty := by
  unfold WorkQueue.done
  simp only
  split <;> exact ⟨rfl, rfl⟩

namespace InUse

def fresh (backoff : Backoff PromotionKey) (now : Instant) : InUse := { queue := { backoff }, now }

def after (u : InUse) (calls : List Call) : InUse := calls.foldl perform u

def log (u : InUse) (calls : List Call) : List (Moment InUse Call) := moments perform u calls

/-- A call that leaves the queue open, and that gives back only what some worker holds. -/
def Orderly (u : InUse) : Call → Prop
  | .done key => key ∈ u.hands
  | .close => False
  | _ => True

instance (u : InUse) (c : Call) : Decidable (u.Orderly c) := by
  unfold Orderly
  cases c <;> infer_instance

def request? (u : InUse) : Call → Option (PromotionKey × Duration)
  | .add key => some (key, .zero)
  | .addAfter key delay => some (key, delay)
  | .addRateLimited key stretch => some (key, (u.queue.backoff.record key stretch).1)
  | _ => none

def asked? (u : InUse) (c : Call) : Option PromotionKey :=
  match u.request? c with
  | some (key, delay) => if delay.isZero then some key else none
  | none => none

def put? (u : InUse) (c : Call) : Option Delayed :=
  match u.request? c with
  | some (key, delay) => if delay.isZero then none else some ⟨u.now + delay.nanos, key⟩
  | none => none

/-- The requests that ripen by a call: those that are due when a worker asks for a key. -/
def ripe (u : InUse) : Call → List Delayed
  | .tryGet => u.queue.delayed.filter (·.due ≤ u.now)
  | _ => []

def handed? (u : InUse) : Call → Option PromotionKey
  | .tryGet => (u.queue.tryGet u.now).1
  | _ => none

def askedFor (u : InUse) (calls : List Call) : List PromotionKey :=
  (u.log calls).filterMap fun m => m.state.asked? m.act

def putOff (u : InUse) (calls : List Call) : List Delayed :=
  (u.log calls).filterMap fun m => m.state.put? m.act

def ripened (u : InUse) (calls : List Call) : List Delayed :=
  (u.log calls).flatMap fun m => m.state.ripe m.act

def handedOut (u : InUse) (calls : List Call) : List PromotionKey :=
  (u.log calls).filterMap fun m => m.state.handed? m.act

-- ---------------------------------------------------------------------------
-- One call
-- ---------------------------------------------------------------------------

structure Live (u : InUse) : Prop where
  opened : u.queue.closed = false
  byDue : ByDue u.queue.delayed

structure Steady (u : InUse) : Prop extends Live u where
  consistent : u.Consistent

variable {u : InUse} {c : Call} {calls : List Call}

theorem live_fresh (backoff : Backoff PromotionKey) (now : Instant) : (fresh backoff now).Live :=
  ⟨rfl, .nil⟩

theorem steady_fresh (backoff : Backoff PromotionKey) (now : Instant) :
    (fresh backoff now).Steady where
  toLive := live_fresh backoff now
  consistent := ⟨sound_start backoff, by simp [fresh], List.nodup_nil⟩

/-- The ways in which a call acts on an open queue: it is a request, a worker takes a key or gives
one back, or it leaves all but the counts of failures as they are. -/
inductive Acts (u : InUse) (queue : WorkQueue) (c : Call) : Prop where
  | requested (key : PromotionKey) (delay : Duration) (backoff : Backoff PromotionKey)
      (request : u.request? c = some (key, delay)) (ripe : u.ripe c = [])
      (handed : u.handed? c = none)
      (next : queue = (u.queue.recounted backoff).addAfter u.now key delay)
  | taken (call : c = .tryGet) (next : queue = (u.queue.tryGet u.now).2)
  | givenBack (key : PromotionKey) (call : c = .done key) (next : queue = u.queue.done key)
  | noted (backoff : Backoff PromotionKey) (request : u.request? c = none) (ripe : u.ripe c = [])
      (handed : u.handed? c = none) (next : queue = u.queue.recounted backoff)

theorem Orderly.allows (h : u.Orderly c) : u.Allows c := by
  cases c with
  | done key => exact h
  | _ => trivial

theorem Orderly.ne_close (h : u.Orderly c) : c ≠ .close := by
  rintro rfl
  exact h

theorem acts (h : c ≠ .close) : u.Acts (u.perform c).queue c := by
  cases c with
  | add key => exact .requested key .zero u.queue.backoff rfl rfl rfl rfl
  | addAfter key delay => exact .requested key delay u.queue.backoff rfl rfl rfl rfl
  | addRateLimited key stretch => exact .requested key _ _ rfl rfl rfl rfl
  | forget key => exact .noted _ rfl rfl rfl rfl
  | tryGet => exact .taken rfl rfl
  | done key => exact .givenBack key rfl rfl
  | close => exact absurd rfl h
  | wait nanos => exact .noted u.queue.backoff rfl rfl rfl rfl

theorem mem_dirty_perform (h : u.Live) (ho : c ≠ .close) : k ∈ (u.perform c).queue.dirty ↔
    (u.asked? c = some k ∨ (∃ d ∈ u.ripe c, d.key = k) ∨ k ∈ u.queue.dirty) ∧
      u.handed? c ≠ some k := by
  cases acts ho with
  | requested key delay backoff request ripe handed next =>
    have hopen : (u.queue.recounted backoff).closed = false := h.opened
    rw [next, mem_dirty_addAfter hopen, ripe, handed, asked?, request]
    by_cases hz : delay.isZero <;> simp [hz, eq_comm, recounted]
  | taken call next =>
    subst call
    rw [next, tryGet, (take_spec _).2.2, mem_dirty_ripen h.byDue h.opened, or_comm]
    simp [asked?, request?, ripe, handed?, tryGet]
  | givenBack key call next =>
    subst call
    rw [next, (done_spec _ _).2]
    simp [asked?, request?, ripe, handed?]
  | noted backoff request ripe handed next =>
    rw [next, ripe, handed, asked?, request]
    simp [recounted]

theorem perm_delayed_perform (h : u.Live) (ho : c ≠ .close) :
    (u.queue.delayed ++ (u.put? c).toList).Perm (u.ripe c ++ (u.perform c).queue.delayed) := by
  cases acts ho with
  | requested key delay backoff request ripe handed next =>
    have hopen : (u.queue.recounted backoff).closed = false := h.opened
    rw [next, ripe, put?, request]
    refine .trans ?_ (perm_delayed_addAfter hopen).symm
    by_cases hz : delay.isZero <;> simp [hz, recounted]
  | taken call next =>
    subst call
    rw [next, tryGet, (take_spec _).1, delayed_ripen h.byDue]
    have hlate : (u.queue.delayed.filter fun d => u.now < d.due) =
        u.queue.delayed.filter fun d => !decide (d.due ≤ u.now) :=
      List.filter_congr fun d _ => by simp only [← decide_not, Nat.not_le]
    rw [hlate]
    simpa [put?, request?, ripe] using (List.filter_append_perm _ _).symm
  | givenBack key call next =>
    subst call
    rw [next, (done_spec _ _).1]
    simp [put?, request?, ripe]
  | noted backoff request ripe handed next =>
    rw [next, ripe, put?, request]
    simp [recounted]

theorem Live.perform (h : u.Live) (ho : c ≠ .close) : (u.perform c).Live := by
  cases acts ho with
  | requested key delay backoff request ripe handed next =>
    exact ⟨next ▸ (closed_addAfter _ _).trans h.opened, next ▸ ByDue.addAfter h.byDue⟩
  | taken call next =>
    have hrest : ByDue (u.queue.ripen u.now).delayed := by
      rw [delayed_ripen h.byDue]
      exact List.Pairwise.filter _ h.byDue
    refine ⟨?_, ?_⟩ <;> rw [next, tryGet]
    · rw [(take_spec _).2.1]
      exact (closed_ripen _).trans h.opened
    · rw [(take_spec _).1]
      exact hrest
  | givenBack key call next =>
    refine ⟨next ▸ (closed_done _).trans h.opened, ?_⟩
    rw [next, (done_spec _ _).1]
    exact h.byDue
  | noted backoff request ripe handed next => exact ⟨next ▸ h.opened, next ▸ h.byDue⟩

theorem Steady.perform (h : u.Steady) (ho : u.Orderly c) : (u.perform c).Steady where
  toLive := h.toLive.perform ho.ne_close
  consistent := h.consistent.perform c ho.allows

theorem dirty_of_handed (h : u.Live) (hk : u.queue.Sole k) (hh : u.handed? c = some k) :
    (∃ d ∈ u.ripe c, d.key = k) ∨ k ∈ u.queue.dirty := by
  cases c with
  | tryGet =>
    rcases take_cases (u.queue.ripen u.now) with ⟨-, ht⟩ | ⟨key, rest, hr, ht⟩
    · rw [handed?, tryGet, ht] at hh
      cases hh
    · rw [handed?, tryGet, ht] at hh
      obtain rfl := Option.some.inj hh
      have hready : key ∈ (u.queue.ripen u.now).ready := hr ▸ List.mem_cons_self
      have hdirty := (((Sole.kept key).ripen hk u.now).asked hready).1
      exact ((mem_dirty_ripen h.byDue h.opened).mp hdirty).symm
  | _ => cases hh

/-- A hand-out uses up what made the key dirty. -/
theorem count_handed_perform (h : u.Steady) (ho : u.Orderly c) (k : PromotionKey) :
    (u.handed? c).toList.count k + (if k ∈ (u.perform c).queue.dirty then 1 else 0) ≤
      (u.asked? c).toList.count k + ((u.ripe c).map Delayed.key).count k +
        (if k ∈ u.queue.dirty then 1 else 0) := by
  have hasked : u.asked? c = some k → 0 < (u.asked? c).toList.count k := fun ha => by simp [ha]
  have hripe : (∃ d ∈ u.ripe c, d.key = k) → 0 < ((u.ripe c).map Delayed.key).count k :=
    fun hd => List.count_pos_iff.mpr (List.mem_map.mpr hd)
  have hnext := mem_dirty_perform (k := k) h.toLive ho.ne_close
  by_cases hh : u.handed? c = some k
  · have hgone : k ∉ (u.perform c).queue.dirty := fun hk => (hnext.mp hk).2 hh
    rw [if_neg hgone, hh]
    rcases dirty_of_handed h.toLive (h.consistent.sound.sole k) hh with hd | hk
    · have := hripe hd
      simp
      omega
    · simp [hk]
  · have hnone : (u.handed? c).toList.count k = 0 := by
      rw [List.count_eq_zero, Option.mem_toList]
      exact hh
    rw [hnone]
    split
    · next hk =>
      rcases (hnext.mp hk).1 with ha | hd | hk
      · have := hasked ha
        omega
      · have := hripe hd
        omega
      · rw [if_pos hk]
        omega
    · omega

-- ---------------------------------------------------------------------------
-- Runs
-- ---------------------------------------------------------------------------

theorem filterMap_log_cons {β : Type} (f : InUse → Call → Option β) (u : InUse) (c : Call)
    (calls : List Call) : (u.log (c :: calls)).filterMap (fun m => f m.state m.act) =
      (f u c).toList ++ ((u.perform c).log calls).filterMap fun m => f m.state m.act := by
  simp only [log, moments, List.filterMap_cons]
  cases f u c <;> rfl

section
variable (h : u.Steady) (ho : ∀ m ∈ u.log calls, m.state.Orderly m.act)
include h ho

theorem Steady.after : (u.after calls).Steady :=
  foldl_of_kept h fun m hm hs => hs.perform (ho m hm)

theorem dirty_after (hk : k ∈ u.queue.dirty)
    (unmet : ∀ m ∈ u.log calls, m.state.handed? m.act ≠ some k) :
    k ∈ (u.after calls).queue.dirty := by
  let I (u : InUse) : Prop := u.Steady ∧ k ∈ u.queue.dirty
  have kept : ∀ m ∈ u.log calls, I m.state → I (m.state.perform m.act) := fun m hm hi =>
    ⟨hi.1.perform (ho m hm),
      (mem_dirty_perform hi.1.toLive (ho m hm).ne_close).mpr ⟨.inr (.inr hi.2), unmet m hm⟩⟩
  exact (foldl_of_kept (I := I) ⟨h, hk⟩ kept).2

theorem perm_delayed_after : (u.queue.delayed ++ u.putOff calls).Perm
    (u.ripened calls ++ (u.after calls).queue.delayed) := by
  induction calls generalizing u with
  | nil => simp [putOff, ripened, log, moments, after]
  | cons c calls ih =>
    obtain ⟨hc : u.Orderly c, hcalls⟩ := List.forall_mem_cons.mp ho
    have hput : u.putOff (c :: calls) = (u.put? c).toList ++ (u.perform c).putOff calls :=
      filterMap_log_cons put? u c calls
    have hripe : u.ripened (c :: calls) = u.ripe c ++ (u.perform c).ripened calls := rfl
    have hfirst := perm_delayed_perform h.toLive hc.ne_close
    have hrest := ih (h.perform hc) hcalls
    rw [hput, hripe, ← List.append_assoc]
    refine (hfirst.append_right _).trans ?_
    rw [List.append_assoc, List.append_assoc]
    exact hrest.append_left _

theorem count_handed_after (k : PromotionKey) :
    (u.handedOut calls).count k + (if k ∈ (u.after calls).queue.dirty then 1 else 0) ≤
      (u.askedFor calls).count k + ((u.ripened calls).map Delayed.key).count k +
        (if k ∈ u.queue.dirty then 1 else 0) := by
  induction calls generalizing u with
  | nil =>
    have hend : u.after [] = u := rfl
    rw [hend]
    exact Nat.add_le_add_right (Nat.zero_le _) _
  | cons c calls ih =>
    obtain ⟨hc : u.Orderly c, hcalls⟩ := List.forall_mem_cons.mp ho
    have hfirst := count_handed_perform h hc k
    have hrest := ih (h.perform hc) hcalls
    have hhanded : u.handedOut (c :: calls) =
        (u.handed? c).toList ++ (u.perform c).handedOut calls :=
      filterMap_log_cons handed? u c calls
    have hasked : u.askedFor (c :: calls) =
        (u.asked? c).toList ++ (u.perform c).askedFor calls :=
      filterMap_log_cons asked? u c calls
    have hripe : u.ripened (c :: calls) = u.ripe c ++ (u.perform c).ripened calls := rfl
    have hend : u.after (c :: calls) = (u.perform c).after calls := rfl
    rw [hhanded, hasked, hripe, hend, List.map_append, List.count_append, List.count_append,
      List.count_append]
    omega

theorem Steady.cut {earlier later : List (Moment InUse Call)} {m : Moment InUse Call}
    (hcut : u.log calls = earlier ++ m :: later) : m.state.Steady ∧ ∃ rest,
      m :: later = m.state.log (m.act :: rest) ∧
      (∀ n ∈ m.state.log (m.act :: rest), n.state.Orderly n.act) ∧
      u.after calls = m.state.after (m.act :: rest) := by
  obtain ⟨first, rest, rfl, hearlier, hstate, hlater⟩ := moments_cut hcut
  have hfirst : ∀ n ∈ u.log first, n.state.Orderly n.act := fun n hn => by
    refine ho n ?_
    rw [hcut, hearlier]
    exact List.mem_append_left _ hn
  have hlog : m :: later = m.state.log (m.act :: rest) := by
    rw [hlater]
    rfl
  refine ⟨hstate ▸ h.after hfirst, rest, hlog, fun n hn => ?_, ?_⟩
  · refine ho n ?_
    rw [hcut, hlog]
    exact List.mem_append_right _ hn
  · rw [hstate, InUse.after, List.foldl_append]
    rfl

variable {earlier later : List (Moment InUse Call)} {m : Moment InUse Call}
  (hcut : u.log calls = earlier ++ m :: later)
include hcut

/-- What is asked for at a moment is dirty at the end, unless it was handed out since. -/
theorem dirty_since (hmade : m.state.asked? m.act = some k ∨ ∃ d ∈ m.state.ripe m.act, d.key = k)
    (unmet : ∀ n ∈ m :: later, n.state.handed? n.act ≠ some k) :
    k ∈ (u.after calls).queue.dirty := by
  obtain ⟨hm, rest, hlog, hrest, hend⟩ := h.cut ho hcut
  rw [hlog] at unmet
  obtain ⟨hact : m.state.Orderly m.act, hthen⟩ := List.forall_mem_cons.mp hrest
  obtain ⟨hnow, hunmet⟩ := List.forall_mem_cons.mp unmet
  have hdirty : k ∈ (m.state.perform m.act).queue.dirty :=
    (mem_dirty_perform hm.toLive hact.ne_close).mpr ⟨hmade.imp id .inl, hnow⟩
  rw [hend]
  exact dirty_after (u := m.state.perform m.act) (hm.perform hact) hthen hdirty hunmet

theorem delayed_since (hput : m.state.put? m.act = some d ∨ d ∈ m.state.queue.delayed)
    (unripe : ∀ n ∈ m :: later, d ∉ n.state.ripe n.act) : d ∈ (u.after calls).queue.delayed := by
  obtain ⟨hm, rest, hlog, hrest, hend⟩ := h.cut ho hcut
  rw [hlog] at unripe
  have hhere : d ∈ m.state.queue.delayed ++ m.state.putOff (m.act :: rest) := by
    rcases hput with hput | hd
    · exact List.mem_append_right _ (List.mem_filterMap.mpr ⟨m, List.mem_cons_self, hput⟩)
    · exact List.mem_append_left _ hd
  rw [hend]
  rcases List.mem_append.mp ((perm_delayed_after hm hrest).mem_iff.mp hhere) with hripe | hd
  · obtain ⟨n, hn, hd⟩ := List.mem_flatMap.mp hripe
    exact absurd hd (unripe n hn)
  · exact hd

end

end InUse

open InUse in
/-- From a new queue that stays open and whose keys come back only from workers that hold them: a
key that was asked for at once, or whose request ripened, is dirty until it is handed out; a dirty
key that no worker holds is ready; a request that was put off is in wait until it ripens, and all
that were put off have either ripened or are in wait; and a key was handed out at most as often as
it was asked for at once or by a request that ripened. -/
theorem kept_until_handed_out {backoff : Backoff PromotionKey} {now : Instant} {calls : List Call}
    (orderly : ∀ m ∈ (fresh backoff now).log calls, m.state.Orderly m.act) (k : PromotionKey) :
    let start := fresh backoff now
    let u := start.after calls
    (∀ earlier m later, start.log calls = earlier ++ m :: later →
      m.state.asked? m.act = some k ∨ (∃ d ∈ m.state.ripe m.act, d.key = k) →
      (∀ n ∈ m :: later, n.state.handed? n.act ≠ some k) → k ∈ u.queue.dirty) ∧
    (k ∈ u.queue.dirty → k ∉ u.hands → k ∈ u.queue.ready) ∧
    (∀ earlier m later d, start.log calls = earlier ++ m :: later →
      m.state.put? m.act = some d ∨ d ∈ m.state.queue.delayed →
      (∀ n ∈ m :: later, d ∉ n.state.ripe n.act) → d ∈ u.queue.delayed) ∧
    (start.putOff calls).Perm (start.ripened calls ++ u.queue.delayed) ∧
    (start.handedOut calls).count k ≤
      (start.askedFor calls).count k + ((start.ripened calls).map Delayed.key).count k := by
  intro start u
  have hsteady : start.Steady := steady_fresh backoff now
  have hu : u.Steady := hsteady.after orderly
  refine ⟨fun _ _ _ hcut => dirty_since hsteady orderly hcut, fun hdirty hfree => ?_,
    fun _ _ _ _ hcut => delayed_since hsteady orderly hcut, perm_delayed_after hsteady orderly, ?_⟩
  · have hheld : k ∉ u.queue.held := fun hk => hfree ((hu.consistent.held k).mp hk)
    exact (hu.consistent.sound.mem_ready k).mpr ⟨hdirty, hheld⟩
  · have hclean : k ∉ start.queue.dirty := List.not_mem_nil
    have hcount := count_handed_after hsteady orderly k
    rw [if_neg hclean] at hcount
    exact Nat.le_trans (Nat.le_add_right _ _) hcount

namespace InUse.Sample

def quick : Backoff PromotionKey := { base := .ofMillis 5, ceiling := .ofMillis 60 }

def revisited : List Call :=
  [.add key, .addAfter key (.ofMillis 1), .tryGet, .add key, .wait 2000000, .tryGet, .done key]

end InUse.Sample

open InUse InUse.Sample in
theorem kept_until_handed_out_sample :
    (∀ m ∈ (fresh quick 0).log revisited, m.state.Orderly m.act) ∧
    key ∈ ((fresh quick 0).after revisited).queue.dirty ∧
    key ∈ ((fresh quick 0).after revisited).queue.ready ∧
    (fresh quick 0).ripened revisited = [⟨1000000, key⟩] ∧
    ((fresh quick 0).handedOut revisited).count key = 1 ∧
    ((fresh quick 0).handedOut revisited).count key ≤ 3 := by
  have orderly : ∀ m ∈ (fresh quick 0).log revisited, m.state.Orderly m.act := by decide +kernel
  obtain ⟨hkept, hready, -, -, hcount⟩ := kept_until_handed_out orderly key
  have hdirty : key ∈ ((fresh quick 0).after revisited).queue.dirty :=
    hkept [_, _, _] _ _ rfl (.inl (by decide +kernel)) (by decide +kernel)
  have hasked : (fresh quick 0).askedFor revisited = [key, key] := by decide +kernel
  have hripe : (fresh quick 0).ripened revisited = [⟨1000000, key⟩] := by decide +kernel
  rw [hasked, hripe] at hcount
  exact ⟨orderly, hdirty, hready hdirty (by decide +kernel), hripe, by decide +kernel, hcount⟩

end StageGate.WorkQueue
