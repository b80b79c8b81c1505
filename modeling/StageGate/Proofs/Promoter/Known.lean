import StageGate.Proofs.Promoter.Provenance

/-!
# The keys that the promoter knows

A key gets to the gates and to the work queue because a promotion of that key was told of or found
in the store, and because the promoter is responsible for that one. Whatever the promoter does from
then on only passes it around. `Learns` says so for one action after the other, and that none of
them writes to the store.
-/

namespace StageGate

namespace WorkQueue

variable {q q' : WorkQueue} {j k : PromotionKey} {now : Instant}

/-- The key is in the queue in some way, whether it will be handed out or not. -/
def Mentions (q : WorkQueue) (k : PromotionKey) : Prop :=
  k ∈ q.ready ∨ k ∈ q.dirty ∨ ∃ d ∈ q.delayed, d.key = k

theorem mentions_of_add (h : (q.add k).Mentions j) : j = k ∨ q.Mentions j := by
  unfold add at h
  split at h
  · exact .inr h
  · split at h
    · rcases h with h | h | h
      · exact .inr (.inl h)
      · exact (List.mem_cons.mp h).imp id fun h => .inr (.inl h)
      · exact .inr (.inr (.inr h))
    · rcases h with h | h | h
      · exact (List.mem_append.mp h).symm.imp List.mem_singleton.mp .inl
      · exact (List.mem_cons.mp h).imp id fun h => .inr (.inl h)
      · exact .inr (.inr (.inr h))

theorem mentions_of_addAfter {delay : Duration} (h : (q.addAfter now k delay).Mentions j) :
    j = k ∨ q.Mentions j := by
  unfold addAfter at h
  split at h
  · exact mentions_of_add h
  · split at h
    · exact .inr h
    · rcases h with h | h | ⟨d, hd, rfl⟩
      · exact .inr (.inl h)
      · exact .inr (.inr (.inl h))
      · rcases mem_schedule.mp hd with rfl | hd
        · exact .inl rfl
        · exact .inr (.inr (.inr ⟨d, hd, rfl⟩))

theorem mentions_of_addRateLimited {stretch : Duration}
    (h : (q.addRateLimited now k stretch).Mentions j) : j = k ∨ q.Mentions j := by
  let counted : WorkQueue := { q with backoff := (q.backoff.record k stretch).2 }
  exact mentions_of_addAfter (q := counted) h

theorem mentions_of_foldl_add {keys : List PromotionKey} (h : (keys.foldl add q).Mentions j) :
    j ∈ keys ∨ q.Mentions j := by
  induction keys generalizing q with
  | nil => exact .inr h
  | cons k keys ih =>
    rcases ih h with h | h
    · exact .inl (List.mem_cons_of_mem _ h)
    · rcases mentions_of_add h with rfl | h
      · exact .inl List.mem_cons_self
      · exact .inr h

theorem mentions_of_ripen (h : (q.ripen now).Mentions j) : q.Mentions j := by
  rcases mentions_of_foldl_add h with h | h | h | ⟨d, hd, rfl⟩
  · obtain ⟨d, hd, rfl⟩ := List.mem_map.mp h
    exact .inr (.inr ⟨d, (List.takeWhile_prefix _).subset hd, rfl⟩)
  · exact .inl h
  · exact .inr (.inl h)
  · exact .inr (.inr ⟨d, (List.dropWhile_suffix _).subset hd, rfl⟩)

theorem mentions_of_take {key? : Option PromotionKey} (h : q.take = (key?, q')) :
    (∀ j, q'.Mentions j → q.Mentions j) ∧ ∀ k ∈ key?, q.Mentions k := by
  rcases take_cases q with ⟨-, ht⟩ | ⟨k, rest, hr, ht⟩
  · rw [ht] at h
    cases h
    exact ⟨fun _ => id, fun k hk => by cases hk⟩
  · rw [ht] at h
    cases h
    refine ⟨fun j hj => ?_, fun j hj => ?_⟩
    · rcases hj with hj | hj | hj
      · exact .inl (by rw [hr]; exact List.mem_cons_of_mem _ hj)
      · exact .inr (.inl (List.mem_filter.mp hj).1)
      · exact .inr (.inr hj)
    · obtain rfl : k = j := by simpa using hj
      exact .inl (by rw [hr]; exact List.mem_cons_self)

theorem mentions_of_tryGet {key? : Option PromotionKey} (h : q.tryGet now = (key?, q')) :
    (∀ j, q'.Mentions j → q.Mentions j) ∧ ∀ k ∈ key?, q.Mentions k := by
  obtain ⟨hrest, hkey⟩ := mentions_of_take h
  exact ⟨fun j hj => mentions_of_ripen (hrest j hj), fun k hk => mentions_of_ripen (hkey k hk)⟩

theorem mentions_of_done (h : (q.done k).Mentions j) : q.Mentions j := by
  unfold done at h
  simp only at h
  split at h
  · next hd =>
    rcases h with h | h
    · rcases List.mem_append.mp h with h | h
      · exact .inl h
      · exact .inr (.inl (by simpa [List.mem_singleton.mp h] using hd))
    · exact .inr h
  · exact h

theorem mentions_of_retime {delayed : List Delayed}
    (same : (delayed.map Delayed.key).Perm (q.delayed.map Delayed.key))
    (h : ({ q with delayed } : WorkQueue).Mentions j) : q.Mentions j := by
  refine h.imp id (Or.imp id fun hd => ?_)
  exact List.mem_map.mp (same.mem_iff.mp (List.mem_map.mpr hd))

end WorkQueue

def Store.Offers (s : Store) (settings : Settings) (k : PromotionKey) : Prop :=
  ∃ p, p.key = k ∧ settings.isResponsibleFor p.metadata = true ∧
    (.promotionCreated p ∈ s.feed.changes ∨ ∃ j, s.promotion? j = some p)

namespace World

def Knows (w : World) (k : PromotionKey) : Prop :=
  (∃ stage, (w.gates.gate stage).Stands k) ∨ w.queue.Mentions k

structure Learns (new : PromotionKey → Prop) (w u : World) : Prop where
  settings : u.settings = w.settings
  quiet : u.Quiet
  store : u.store = w.store
  knows : ∀ {k}, u.Knows k → w.Knows k ∨ new k

variable {w u v : World} {new : PromotionKey → Prop} {stage other : StageKey} {k key : PromotionKey}
  {p : Promotion} {c : Change}

namespace Learns

theorem refl (h : w.Quiet) : w.Learns new w := ⟨rfl, h, rfl, .inl⟩

theorem trans (h : w.Learns new u) (h' : u.Learns new v) : w.Learns new v where
  settings := h'.settings.trans h.settings
  quiet := h'.quiet
  store := h'.store.trans h.store
  knows hk := (h'.knows hk).elim h.knows .inr

theorem of (h : w.Quiet) {gates : Gates} {queue : WorkQueue} (counters : Counters)
    (log : List LogRecord)
    (standing : ∀ other k, (gates.gate other).Stands k → w.Knows k ∨ new k)
    (mentioned : ∀ k, queue.Mentions k → w.Knows k ∨ new k) :
    w.Learns new { w with gates, queue, counters, log } where
  settings := rfl
  quiet := h
  store := rfl
  knows hk := hk.elim (fun ⟨other, hs⟩ => standing other _ hs) (mentioned _)

end Learns

theorem knows_of_gate (new : PromotionKey → Prop) {gs' : Gates} {g : Gate}
    (hgate : ∀ other, gs'.gate other = if other = stage then g else w.gates.gate other)
    (hg : ∀ {k}, g.Stands k → (w.gates.gate stage).Stands k ∨ new k)
    (hs : (gs'.gate other).Stands k) : w.Knows k ∨ new k := by
  rcases Traced.at_gate hgate hs with ⟨-, hs⟩ | hs
  · exact (hg hs).imp (fun hs => .inl ⟨stage, hs⟩) id
  · exact .inl (.inl ⟨other, hs⟩)

theorem learns_enqueueNext (h : w.Quiet) (stage : StageKey) :
    w.Learns new ((enqueueNext stage).run w).2 := by
  obtain ⟨counters, log, hr⟩ := enqueueNext_quiet h stage
  rw [hr]
  refine .of h counters log (fun other k hs => ?_) fun k hm => .inl ?_
  · exact knows_of_gate new (fun _ => Gates.gate_passEnded _)
      (fun hg => .inl (Gate.stands_of_passEnded hg)) hs
  · -- What is sent for stands at the gate.
    rw [Gates.gate_passEnded, if_pos rfl] at hm
    unfold dispatched at hm
    split at hm
    · exact .inr hm
    · next next hnext =>
      rcases WorkQueue.mentions_of_addRateLimited hm with rfl | hm
      · exact .inl ⟨stage, Gate.stands_of_passEnded (Gate.stands_of_next? hnext)⟩
      · exact .inr hm

theorem learns_conclude (h : w.Quiet) (stage : StageKey) (key : PromotionKey) (counters : Counters)
    (log : List LogRecord) :
    w.Learns new { w with gates := (w.gates.conclude stage key).2, counters, log } :=
  .of h counters log
    (fun _ _ hs => knows_of_gate new (fun _ => Gates.gate_conclude key)
      (fun hg => .inl ((Gate.conclude_lost _ key).stands hg)) hs)
    fun _ hm => .inl (.inr hm)

theorem learns_release (h : w.Quiet) (stage : StageKey) (key : PromotionKey) :
    w.Learns new ((release stage key).run w).2 := by
  obtain ⟨counters, log, hr⟩ := release_run stage key w
  have hfreed : w.Learns new { w with gates := (w.gates.conclude stage key).2, counters, log } :=
    learns_conclude h stage key counters log
  rw [hr]
  exact hfreed.trans (learns_enqueueNext hfreed.quiet stage)

theorem learns_onPromotionCreated (h : w.Quiet) (hp : w.settings.worksOn p = true → new p.key) :
    w.Learns new ((onPromotionCreated p).run w).2 := by
  by_cases hw : w.settings.worksOn p = true
  · obtain ⟨counters, log, hr⟩ := onPromotionCreated_run hw
    rw [hr]
    refine .of h counters log (fun other k hs => ?_) fun k hm => ?_
    · refine knows_of_gate new (fun _ => Gates.gate_enroll _) (fun hg => ?_) hs
      rcases Gate.stands_enroll.mp hg with rfl | hs
      · exact .inr (hp hw)
      · exact .inl hs
    · unfold admitted at hm
      split at hm
      · rcases WorkQueue.mentions_of_add hm with rfl | hm
        · exact .inr (hp hw)
        · exact .inl (.inr hm)
      · exact .inl (.inr hm)
  · rw [onPromotionCreated_pass (by simpa using hw)]
    exact .refl h

theorem learns_handle (h : w.Quiet) (hc : c ∈ w.store.feed.changes) :
    w.Learns (w.store.Offers w.settings) ((handle c).run w).2 := by
  cases he : c.ended? with
  | some p =>
    rw [handle_ended he]
    split
    · exact learns_release h _ _
    · exact .refl h
  | none =>
    cases c with
    | promotionCreated p =>
      exact learns_onPromotionCreated h fun hw => ⟨p, rfl, (Settings.worksOn_iff.mp hw).2, .inl hc⟩
    | promotionUpdated old new =>
      rw [handle_passed he]
      exact .refl h
    | promotionDeleted p => cases he
    | applicationUpdated old new =>
      refine handle_application h old new (I := w.Learns (w.store.Offers w.settings)) (.refl h) ?_
      intro j p u counters log hp hu hr
      rw [hu.settings] at hr
      refine ⟨hu.settings, hu.quiet, hu.store, fun hk => ?_⟩
      rcases hk with hs | hm
      · exact hu.knows (.inl hs)
      · rcases WorkQueue.mentions_of_add hm with rfl | hm
        · exact .inr ⟨p, rfl, hr, .inr ⟨j, hp⟩⟩
        · exact hu.knows (.inr hm)

theorem learns_resync (h : w.Quiet) :
    w.Learns (w.store.Offers w.settings) (resync.run.run w).2 := by
  let offers := w.store.Offers w.settings
  refine resync_run (F := fun _ => w.Learns offers) (D := fun _ => w.Learns offers)
    (A := fun list u => w.Learns offers u ∧ ∀ p ∈ list, offers p.key)
    (.refl h) ?free ?freed ?enroll ?enrolled ?send
  case free =>
    intro stage _ u hu
    exact releaseStale_quiet hu.quiet stage (fun _ => hu) (fun _ _ _ => hu)
      fun k counters log _ _ => hu.trans (learns_conclude hu.quiet stage k counters log)
  case freed =>
    intro u hu
    refine ⟨hu.quiet, hu, fun p hp => ?_⟩
    rw [hu.settings, hu.store] at hp
    obtain ⟨hp, hw⟩ := mem_toAdmit.mp hp
    exact ⟨p, rfl, (Settings.worksOn_iff.mp hw).2, .inr (Store.mem_promotionList_iff.mp hp)⟩
  case enroll =>
    rintro p rest u ⟨hu, hlist⟩
    have hp := hlist p List.mem_cons_self
    exact ⟨hu.trans (learns_onPromotionCreated hu.quiet fun _ => hp),
      fun q hq => hlist q (List.mem_cons_of_mem _ hq)⟩
  case enrolled => exact fun u log hu => ⟨hu.1.settings, hu.1.quiet, hu.1.store, hu.1.knows⟩
  case send => exact fun stage _ u hu => hu.trans (learns_enqueueNext hu.quiet stage)

theorem learns_delivered (h : w.Quiet) {delivery : Delivery}
    (hr : receive.run w = (some delivery, u)) :
    w.Learns (w.store.Offers w.settings) ((onDelivery delivery).run u).2 := by
  obtain ⟨position, hnext, rfl⟩ := System.receive_ok hr
  have hread : w.Learns (w.store.Offers w.settings) { w with position } := ⟨rfl, h, rfl, .inl⟩
  cases delivery with
  | change c => exact hread.trans (learns_handle hread.quiet (Feed.mem_of_receive hnext))
  | lagged missed =>
    have hlogged : w.Learns (w.store.Offers w.settings)
        { w with position, log := .watchLagged missed :: w.log } := ⟨rfl, h, rfl, .inl⟩
    rw [onDelivery_lagged]
    exact hlogged.trans (learns_resync hlogged.quiet)

theorem learns_claim (h : w.Quiet) (p : Promotion) (counters : Counters) (log : List LogRecord) :
    w.Learns (· = p.key)
      { w with gates := (w.gates.claim p.stageKey (.ofPromotion p)).2, counters, log } := by
  refine .of h counters log (fun other k hs => ?_) fun k hm => .inl (.inr hm)
  refine knows_of_gate (· = p.key) (fun _ => Gates.gate_claim _) (fun hg => ?_) hs
  exact (Gate.stands_claim.mp hg).symm

theorem knows_of_tried (h : w.Quiet) (hkey : ∀ p, w.store.promotion? key = some p → p.key = key)
    {mechanics : Mechanics} {outcome : Except ReconcileError Outcome}
    (ht : Tried mechanics key w outcome u) (hk : u.Knows k) : w.Knows k ∨ k = key := by
  cases ht with
  | ended past counters => exact .inl hk
  | busy p stored unended other claim counters log =>
    obtain rfl := hkey p stored
    exact (learns_claim h p counters log).knows hk
  | behind p stored unended head claim counters log =>
    obtain rfl := hkey p stored
    have hclaim := learns_claim h p counters log
    exact (hclaim.trans (learns_enqueueNext hclaim.quiet p.stageKey)).knows hk
  | ran p stored unended claim running s s' marked concluded counters log =>
    obtain rfl := hkey p stored
    exact (learns_claim h p counters log).knows hk

end World

end StageGate
