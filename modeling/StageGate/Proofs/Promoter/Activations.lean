import Mathlib.Data.List.Perm.Subperm
import StageGate.Proofs.Promoter.Inert
import StageGate.Proofs.Promoter.Promoted
import StageGate.Proofs.Store.Renewed

/-!
# Activations and the stages taken

An activation is counted just before its promotion is marked as running. Where that write fails the
attempt is repeated under the claim that it has, and counted again. So activations are accounted for
by three kinds of events together: stages that are taken, marks that fail, and promotions that start
over under a claim. Main statement: `activated_as_accounted`, over every run among other writers;
`Accounted` is what each step keeps, and `activated_twice` shows that stages alone do not do. All
that a system comes to while it is beset is such a run (`Course.beset`), and so is a fresh start of
the promoter (`Course.opened`).
-/

namespace StageGate

-- ---------------------------------------------------------------------------
-- Stages taken
-- ---------------------------------------------------------------------------

namespace Gates

variable {gs gs' : Gates} {stage : StageKey} {k : PromotionKey}

/-- Those who hold a stage in the end that they did not hold before, once for each such stage. -/
def gained (gs gs' : Gates) : List PromotionKey := gs'.stages.filterMap fun stage =>
  if gs'.active? stage = gs.active? stage then none else gs'.active? stage

theorem mem_gained (h : gs'.active? stage = some k) (new : gs.active? stage ≠ some k) :
    k ∈ gs.gained gs' := by
  have hstage : stage ∈ gs'.stages := by
    rw [mem_stages_iff]
    cases hg : gs'.gate? stage with
    | none =>
      rw [active?, gate_of_gate?_none hg] at h
      cases h
    | some g => rfl
  refine List.mem_filterMap.mpr ⟨stage, hstage, ?_⟩
  rw [if_neg (h ▸ Ne.symm new), h]

theorem gained_eq_nil (h : ∀ stage k, gs'.active? stage = some k → gs.active? stage = some k) :
    gs.gained gs' = [] := by
  refine List.filterMap_eq_nil_iff.mpr fun stage _ => ?_
  cases hk : gs'.active? stage with
  | none => simp
  | some k => rw [h stage k hk, if_pos rfl]

end Gates

namespace World

section

variable {w u v : World} {key k : PromotionKey} {p : Promotion} {stage : StageKey} {takes : Prop}
  {version : UInt64} {status : PromotionStatus}

-- ---------------------------------------------------------------------------
-- A moment at which a promotion is not pending
-- ---------------------------------------------------------------------------

/-- At some moment between two worlds no pending promotion was stored under the key. -/
def Lapsed (w : World) (key : PromotionKey) (u : World) : Prop :=
  ∃ s, w.store.Written s ∧ ¬ s.Pending key ∧ s.Written u.store

theorem Lapsed.since (h : v.Lapsed key u) (written : w.store.Written v.store) : w.Lapsed key u := by
  obtain ⟨s, hbefore, hs, hafter⟩ := h
  exact ⟨s, written.trans hbefore, hs, hafter⟩

theorem Lapsed.until (h : w.Lapsed key v) (written : v.store.Written u.store) :
    w.Lapsed key u := by
  obtain ⟨s, hbefore, hs, hafter⟩ := h
  exact ⟨s, hbefore, hs, hafter.trans written⟩

theorem lapsed_of_read {p? : Option Promotion} (h : ((readPromotion key).run w).1 = .ok p?)
    (hp : ∀ p, p? = some p → p.phase ≠ .pending) :
    w.Lapsed key ((readPromotion key).run w).2 := by
  obtain ⟨s, hbefore, hstored, hafter⟩ := readPromotion_ok h
  refine ⟨s, hbefore, ?_, hafter⟩
  rintro ⟨p, hs, hpending⟩
  exact hp p (hstored.symm.trans hs) hpending

theorem lapsed_of_gone {cause : StoreError}
    (h : ((updateStatus key version status).run w).1 = .error cause)
    (gone : cause.isNotFound = true) :
    w.Lapsed key ((updateStatus key version status).run w).2 := by
  have hfound : w.store.Written (w.found .updateStatus (some key)) := Store.written_meddled _ _ _
  unfold updateStatus at h ⊢
  rw [callStore_run] at h ⊢
  cases hout : (w.disturbances.next .updateStatus).outage with
  | some text =>
    rw [hout] at h
    cases h
    cases gone
  | none =>
    simp only [hout] at h ⊢
    cases hs : (w.found .updateStatus (some key)).updateStatus key version status with
    | ok answer =>
      rw [hs] at h
      cases h
    | error cause' =>
      rw [hs] at h
      cases h
      refine ⟨_, hfound, ?_, Store.written_meddled _ _ _⟩
      rintro ⟨p, hp, -⟩
      simp only [Store.updateStatus, hp] at hs
      split at hs
      · cases hs
        cases gone
      · cases hs

theorem lapsed_of_marked {updated : Promotion} (keyed : w.store.Keyed)
    (hstatus : status.phase ≠ .pending)
    (h : ((updateStatus key version status).run w).1 = .ok updated) :
    w.Lapsed key ((updateStatus key version status).run w).2 := by
  have hfound : w.store.Written (w.found .updateStatus (some key)) := Store.written_meddled _ _ _
  obtain ⟨s, hs, hstore⟩ := updateStatus_ok h
  obtain ⟨old, stored, -, rfl, promotions, -⟩ := Store.updateStatus_ok hs
  have hkey : old.key = key := (keyed.written hfound) key old stored
  refine ⟨s, hfound.trans (Store.written_updateStatus hs), ?_,
    hstore ▸ Store.written_meddled _ _ _⟩
  rintro ⟨p, hp, hpending⟩
  rw [Store.promotion?_insert promotions, if_pos hkey.symm] at hp
  cases hp
  exact hstatus hpending

def Settles (w : World) (key : PromotionKey) (x : Attempt α) (v : World) : Prop :=
  (∃ k cause, (x.run.run v).1 = .error (.statusUpdate k cause)) ∨ w.Lapsed key (x.run.run v).2

namespace Settles

variable {x : Attempt α}

theorem since (h : Settles v key x u) (written : w.store.Written v.store) : Settles w key x u :=
  h.imp_right (·.since written)

theorem lift_bind {x : Action β} {g : β → Attempt α}
    (h : Settles w key (g (x.run v).1) (x.run v).2) : Settles w key (liftM x >>= g) v := h

theorem throw {cause : StoreError} :
    Settles w key (MonadExcept.throw (.statusUpdate k cause) : Attempt α) v := .inl ⟨_, _, rfl⟩

theorem released {q? : Option Promotion} (h : w.Lapsed key v) :
    Settles w key (do release stage k; return q? : Attempt (Option Promotion)) v :=
  .inr (h.until (Steady.release stage k v).written)

theorem first {otherwise : StoreError → Attempt (Option Promotion)} (keyed : w.store.Keyed)
    (hstatus : status.phase ≠ .pending)
    (rest : ∀ cause, Settles w p.key (otherwise cause)
      ((updateStatus p.key version status).run w).2) :
    Settles w p.key (firstTry p status version otherwise) w := by
  unfold firstTry
  refine lift_bind ?_
  rcases hanswer : ((updateStatus p.key version status).run w).1 with cause | updated
  · simp only
    split
    · next hgone => exact released (lapsed_of_gone hanswer hgone)
    · exact rest cause
  · exact .inr (lapsed_of_marked keyed hstatus hanswer)

end Settles

theorem writeStatus_settles (keyed : w.store.Keyed) (hstatus : status.phase ≠ .pending)
    (retries : Nat) (version : UInt64) :
    Settles w p.key (writeStatus p status retries version) w := by
  induction retries generalizing version w with
  | zero =>
    rw [writeStatus_zero]
    exact .first keyed hstatus fun cause => .throw
  | succ retries ih =>
    rw [writeStatus_succ]
    refine .first keyed hstatus fun cause => ?_
    have hupdated := (Steady.attempting.updateStatus p.key version status w).written
    split
    · exact .throw
    · refine .lift_bind ?_
      rcases hagain : ((readPromotion p.key).run ((updateStatus p.key version status).run w).2).1
        with e | latest?
      · exact .throw
      · have hread := hupdated.trans (Steady.readPromotion p.key _).written
        rcases latest? with _ | latest
        · exact .released ((lapsed_of_read hagain nofun).since hupdated)
        · simp only
          split
          · next hended =>
            refine .released ((lapsed_of_read hagain ?_).since hupdated)
            rintro _ ⟨⟩ hpending
            rw [Promotion.isTerminal, hpending] at hended
            cases hended
          · exact (ih (keyed.written hread) _).since hread

theorem setStatus_settles (keyed : w.store.Keyed) (hstatus : status.phase ≠ .pending) :
    Settles w p.key (setStatus p status) w := writeStatus_settles keyed hstatus _ _

-- ---------------------------------------------------------------------------
-- What activations are accounted for by
-- ---------------------------------------------------------------------------

/-- The promotion holds a stage under a claim that it can still be activated under: it is pending,
or nothing was created under its key so far. -/
def Poised (w : World) (k : PromotionKey) : Prop :=
  (∃ stage, w.gates.active? stage = some k) ∧ (w.store.Pending k ∨ w.store.creations k = [])

/-- Every activation of a promotion is accounted for by what is due to it, or by its having started
over. A claim that it was not activated under yet is due to it besides. -/
structure Accounted (due : PromotionKey → Nat) (w : World) : Prop where
  store : w.store.Descended
  counted : w.counters.activations = w.activated.length
  within : ∀ k, w.activated.count k ≤ due k + w.store.renewed.count k
  poised : ∀ k, w.Poised k → w.activated.count k < due k + w.store.renewed.count k

namespace Accounted

variable {due due' : PromotionKey → Nat}

theorem start (settings : Settings) (ns : String) :
    (World.start settings { defaultNamespace := ns }).Accounted fun _ => 0 where
  store := Store.descended_empty ns
  counted := rfl
  within _ := Nat.zero_le _
  poised := by
    rintro k ⟨⟨stage, hk⟩, -⟩
    cases hk

theorem keyed (h : w.Accounted due) : w.store.Keyed := fun _ _ hp => h.store.key_eq hp

theorem mono (h : w.Accounted due) (le : ∀ k, due k ≤ due' k) : w.Accounted due' where
  store := h.store
  counted := h.counted
  within k := (h.within k).trans (Nat.add_le_add_right (le k) _)
  poised k hk := (h.poised k hk).trans_le (Nat.add_le_add_right (le k) _)

theorem turn (h : w.Accounted due) (hu : w.Unactivated takes u) :
    u.Accounted fun k => due k + (w.gates.gained u.gates).count k where
  store := h.store.written hu.written
  counted := by rw [hu.activations, hu.activated, h.counted]
  within k := by
    have hbefore := h.within k
    have hstarted := hu.written.count_renewed_le k
    rw [hu.activated]
    omega
  poised := by
    rintro k ⟨⟨stage, hk⟩, hfresh⟩
    have hbefore := h.within k
    have hstarted := hu.written.count_renewed_le k
    rw [hu.activated]
    by_cases hheld : w.gates.active? stage = some k
    · by_cases hpoised : w.Poised k
      · have hless := h.poised k hpoised
        omega
      · have hcreated : w.store.creations k ≠ [] := fun hnone =>
          hpoised ⟨⟨stage, hheld⟩, .inr hnone⟩
        have hsettled : ¬ w.store.Pending k := fun hpending =>
          hpoised ⟨⟨stage, hheld⟩, .inl hpending⟩
        have hpending := hfresh.resolve_right ((hu.written.creations k).ne_nil hcreated)
        have hless := hu.written.count_renewed_lt h.keyed hcreated hsettled hpending
        omega
    · have hgained := List.count_pos_iff.mpr (Gates.mem_gained hk hheld)
      omega

theorem more (h : w.Accounted due) (due' : PromotionKey → Nat) :
    w.Accounted fun k => due k + due' k := h.mono fun _ => Nat.le_add_right _ _

theorem pass (h : w.Accounted due) (hu : w.Unactivated False u) : u.Accounted due := by
  refine (h.turn hu).mono fun k => ?_
  rw [Gates.gained_eq_nil (hu.holders id), List.count_nil, Nat.add_zero]

theorem inert {x : Action α} (h : w.Accounted due) (hx : Inert False x) :
    (x.run w).2.Accounted due := h.pass (hx w)

end Accounted

-- ---------------------------------------------------------------------------
-- Attempts
-- ---------------------------------------------------------------------------

/-- Who takes a stage by the claim that an attempt makes after its first look. -/
def takenBy (w : World) (key : PromotionKey) : List PromotionKey :=
  match (look key).run w with
  | (.ok (some p), u) => if p.isTerminal then [] else u.gates.gained (u.claimed p).gates
  | _ => []

theorem takenBy_of_open (h : ((look key).run w).1 = .ok (some p)) (hp : p.isTerminal = false) :
    w.takenBy key =
      ((look key).run w).2.gates.gained (((look key).run w).2.claimed p).gates := by
  have hrun : (look key).run w = (.ok (some p), ((look key).run w).2) := Prod.ext h rfl
  unfold takenBy
  rw [hrun]
  exact if_neg (by rw [hp]; nofun)

/-- The promotion that could not be marked as running, if that is how the first half of its attempt
ended. -/
def unmarked (key : PromotionKey) : Except ReconcileError α → List PromotionKey
  | .error (.statusUpdate _ _) => [key]
  | _ => []

theorem unmarked_map (key : PromotionKey) (f : α → β) (answer : Except ReconcileError α) :
    unmarked key (answer.map f) = unmarked key answer := by
  rcases answer with e | a
  · cases e <;> rfl
  · rfl

def activating (w : World) (key : PromotionKey) (stage : StageKey) : World :=
  { w with
    counters := { w.counters with activations := w.counters.activations + 1 }
    log := .decision .promotionActivated key stage :: w.log }

theorem count_activating (k : PromotionKey) :
    (w.activating key stage).activated.count k = w.activated.count k + [key].count k := by
  show (key :: w.activated).count k = _
  rw [← List.singleton_append, List.count_append, Nat.add_comm]

theorem creations_of_stored {s : Store} (h : s.Descended) (hp : s.promotion? key = some p) :
    s.creations key ≠ [] := by
  obtain ⟨q, hq, hentry⟩ := h.announced hp
  have hkey : q.key = key := (congrArg Entry.key hentry).trans (h.key_eq hp)
  exact List.ne_nil_of_mem (Store.mem_creations.mpr ⟨hq, hkey⟩)

theorem holds_of_claimStage (h : ((claimStage p).run w).1 = true) :
    ((claimStage p).run w).2.gates.active? p.stageKey = some p.key := by
  have hclaimed := claim_of_true h
  rw [claimStage_run, hclaimed]
  exact Gates.active?_of_activated hclaimed

namespace Accounted

variable {due : PromotionKey → Nat} {latest : Promotion}

/-- A claim is used up once its promotion was activated and was not pending at some moment since. -/
theorem usedUp (h : w.Accounted fun k => due k + [key].count k) (hu : w.Unactivated False u)
    (created : w.store.creations key ≠ [])
    (within : w.activated.count key ≤ due key + w.store.renewed.count key)
    (lapsed : w.Lapsed key u) : u.Accounted due := by
  have hu' := h.pass hu
  obtain ⟨s, hbefore, hlapsed, hafter⟩ := lapsed
  have hstarted := (hbefore.trans hafter).count_renewed_le key
  refine ⟨hu'.store, hu'.counted, fun k => ?_, fun k hk => ?_⟩
  · by_cases hkey : k = key
    · rw [hkey, hu.activated]
      omega
    · simpa [List.count_singleton, Ne.symm hkey] using hu'.within k
  · by_cases hkey : k = key
    · subst hkey
      have hcreated : s.creations k ≠ [] := (hbefore.creations k).ne_nil created
      have hpending := hk.2.resolve_right ((hafter.creations k).ne_nil hcreated)
      have hearlier := hbefore.count_renewed_le k
      have hagain := hafter.count_renewed_lt (h.keyed.written hbefore) hcreated hlapsed hpending
      rw [hu.activated]
      omega
    · simpa [List.count_singleton, Ne.symm hkey] using hu'.poised k hk

theorem activating (h : w.Accounted due) :
    (w.activating key stage).Accounted fun k => due k + [key].count k := by
  refine ⟨h.store, congrArg Nat.succ h.counted, fun k => ?_, fun k hk => ?_⟩
  · have hbefore := h.within k
    rw [count_activating]
    show _ ≤ _ + w.store.renewed.count k
    omega
  · have hbefore := h.poised k hk
    rw [count_activating]
    show _ < _ + w.store.renewed.count k
    omega

/-- The activation is counted before the mark is written. If the mark is written, or there is
nothing to write it to, the claim is used up by it. -/
theorem markRunning (h : w.Accounted due) (hkey : latest.key = key)
    (created : w.store.creations key ≠ [])
    (claimed : latest.phase = .pending →
      w.activated.count key < due key + w.store.renewed.count key) :
    ((World.markRunning key stage latest).run.run w).2.Accounted fun k =>
      due k + (unmarked key ((World.markRunning key stage latest).run.run w).1).count k := by
  unfold World.markRunning
  split
  · next hpending =>
    have hactivating : (w.activating key stage).Accounted fun k => due k + [key].count k :=
      h.activating
    have hset : Inert False (World.setStatus latest (.ofPhase .running)).run :=
      Inert.attempting.setStatus _ _
    have hsettles : Settles (w.activating key stage) key
        (World.setStatus latest (.ofPhase .running)) (w.activating key stage) :=
      hkey ▸ setStatus_settles h.keyed nofun
    show Accounted (fun k => due k + (unmarked key
      ((World.setStatus latest (.ofPhase .running)).run.run (w.activating key stage)).1).count k)
      ((World.setStatus latest (.ofPhase .running)).run.run (w.activating key stage)).2
    rcases hsettles with ⟨_, cause, hfailed⟩ | hlapsed
    · rw [hfailed]
      exact hactivating.inert hset
    · have hwithin : (w.activating key stage).activated.count key ≤
          due key + w.store.renewed.count key := by
        rw [count_activating, List.count_singleton_self]
        exact claimed hpending
      exact (hactivating.usedUp (hset _) created hwithin hlapsed).more _
  · exact h.more _

theorem found (h : w.Accounted due) (holds : w.gates.active? stage = some key)
    (read : ((World.readPromotion key).run w).1 = .ok (some latest)) :
    latest.key = key ∧ ((World.readPromotion key).run w).2.store.creations key ≠ [] ∧
      (latest.phase = .pending → ((World.readPromotion key).run w).2.activated.count key <
        due key + ((World.readPromotion key).run w).2.store.renewed.count key) := by
  obtain ⟨s, hbefore, hstored, hafter⟩ := readPromotion_ok read
  have hmoment : w.Unactivated False { w with store := s } := .aside hbefore rfl rfl rfl
  have hcreated := creations_of_stored (h.store.written hbefore) hstored
  refine ⟨h.keyed.written hbefore key latest hstored, (hafter.creations key).ne_nil hcreated,
    fun hpending => ?_⟩
  have hless := (h.pass hmoment).poised key ⟨⟨stage, holds⟩, .inl ⟨latest, hstored, hpending⟩⟩
  have hread : w.Unactivated False _ := Inert.attempting.readPromotion key w
  rw [hread.activated]
  exact hless.trans_le (Nat.add_le_add_left (hafter.count_renewed_le key) _)

theorem confirm (h : w.Accounted due) (holds : w.gates.active? stage = some key) :
    ((World.confirm key stage).run.run w).2.Accounted fun k =>
      due k + (unmarked key ((World.confirm key stage).run.run w).1).count k := by
  have hread := h.inert (Inert.attempting.readPromotion key)
  unfold World.confirm
  rw [attempt_bind, attempt_lift]
  rcases hanswer : ((World.readPromotion key).run w).1 with cause | latest?
  · exact hread.more _
  · simp only
    cases hlatest : latest?.filter (!·.isTerminal) with
    | none => exact (hread.inert (Inert.attempting.release stage key)).more _
    | some latest =>
      obtain ⟨rfl, -⟩ := Option.filter_eq_some_iff.mp hlatest
      obtain ⟨hkey, hcreated, hclaimed⟩ := h.found holds hanswer
      have hmarked : ((World.markRunning key stage latest).run.run _).2.Accounted _ :=
        hread.markRunning hkey hcreated hclaimed
      simp only
      rw [attempt_bind]
      rcases hr : (World.markRunning key stage latest).run.run
        ((World.readPromotion key).run w).2 with ⟨answer, u⟩
      rw [hr] at hmarked
      cases answer <;> exact hmarked

/-- A stage is taken by the claim, if by anything, and the promotion holds one from then on. -/
theorem takeUp (h : w.Accounted due) : ((World.takeUp key).run.run w).2.Accounted fun k =>
    due k + (w.takenBy key).count k +
      (unmarked key ((World.takeUp key).run.run w).1).count k := by
  have hlook := h.inert (Inert.attempting.look key)
  unfold World.takeUp
  rw [attempt_bind, attempt_lift]
  rcases hanswer : ((World.look key).run w).1 with cause | first?
  · exact (hlook.more _).more _
  · simp only
    cases hfirst : first?.filter (!·.isTerminal) with
    | none => exact (hlook.more _).more _
    | some first =>
      obtain ⟨rfl, hopen⟩ := Option.filter_eq_some_iff.mp hfirst
      have hturned : (((World.look key).run w).2.claimed first).Accounted fun k =>
          due k + (w.takenBy key).count k := by
        rw [takenBy_of_open hanswer (by simpa using hopen)]
        exact hlook.turn (.regated _)
      have hclaimed := hturned.pass (claimStage_unactivated first ((World.look key).run w).2)
      have hkey : first.key = key := by
        obtain ⟨s, hbefore, hstored, -⟩ := look_ok hanswer
        exact h.keyed.written hbefore key first hstored
      simp only
      rw [attempt_bind, attempt_lift]
      rcases hc : ((claimStage first).run ((World.look key).run w).2).1 with _ | _
      · exact hclaimed.more _
      · have hconfirmed := hclaimed.confirm (hkey ▸ holds_of_claimStage hc)
        simp only [if_true]
        rw [attempt_bind]
        rcases hr : (World.confirm key first.stageKey).run.run
          ((claimStage first).run ((World.look key).run w).2).2 with ⟨answer, u⟩
        rw [hr, ← unmarked_map key (Option.map (first.stageKey, ·))] at hconfirmed
        cases answer <;> exact hconfirmed

theorem reconcile (h : w.Accounted due) (mechanics : Mechanics) :
    ((World.reconcile mechanics key).run.run w).2.Accounted fun k => due k +
      (w.takenBy key).count k + (unmarked key ((World.takeUp key).run.run w).1).count k := by
  have htaken : ((World.takeUp key).run.run w).2.Accounted _ := h.takeUp
  rw [reconcile_eq, attempt_bind]
  rcases hr : (World.takeUp key).run.run w with ⟨e | _ | ⟨stageKey, p⟩, u⟩
  · rwa [hr] at htaken
  · rwa [hr] at htaken
  · rw [hr] at htaken
    exact htaken.inert (Inert.carryOut mechanics key stageKey p)

end Accounted

end

-- ---------------------------------------------------------------------------
-- Whole runs
-- ---------------------------------------------------------------------------

/-- A run of a promoter among other writers. Listed along with it is who took a stage, which goes by
who holds the stages before and after, and which attempts ended with a mark that failed. -/
inductive Course (settings : Settings) (ns : String) :
    List PromotionKey → List PromotionKey → World → Prop where
  | start : Course settings ns [] [] (World.start settings { defaultNamespace := ns })
  | write (reached : Course settings ns taken failed w) (write : Write) :
      Course settings ns taken failed { w with store := w.store.after write }
  /-- The clock and the work queue go on, and anything is laid down to disturb the calls to come. -/
  | aside (reached : Course settings ns taken failed w) (position : Nat) (queue : WorkQueue)
      (disturbances : Disturbances) (now : Instant) :
      Course settings ns taken failed { w with position, queue, disturbances, now }
  | admitAll (reached : Course settings ns taken failed w) :
      Course settings ns (taken ++ w.gates.gained (initializeQueues.run.run w).2.gates) failed
        (initializeQueues.run.run w).2
  | deliver (reached : Course settings ns taken failed w) (delivery : Delivery) :
      Course settings ns (taken ++ w.gates.gained ((onDelivery delivery).run w).2.gates) failed
        ((onDelivery delivery).run w).2
  | attempt (reached : Course settings ns taken failed w) (mechanics : Mechanics)
      (key : PromotionKey) :
      Course settings ns (taken ++ w.takenBy key)
        (failed ++ unmarked key ((takeUp key).run.run w).1)
        ((reconcile mechanics key).run.run w).2
  | report (reached : Course settings ns taken failed w) (key : PromotionKey)
      (outcome : Except ReconcileError Outcome) :
      Course settings ns taken failed ((onOutcome key outcome).run w).2
  /-- The promoter tells of an event of its own, such as its start. -/
  | remark (reached : Course settings ns taken failed w) (event : Event) :
      Course settings ns taken failed ((record (.general event)).run w).2

theorem Course.accounted {settings : Settings} {ns : String} {taken failed : List PromotionKey}
    {w : World} (h : Course settings ns taken failed w) :
    w.Accounted fun k => taken.count k + failed.count k := by
  induction h with
  | start => exact .start settings ns
  | write _ write ih => exact ih.pass (.aside (Store.written_after _ _) rfl rfl rfl)
  | aside _ position queue disturbances now ih => exact ih.pass (.aside .refl rfl rfl rfl)
  | admitAll _ ih =>
    refine (ih.turn (Inert.initializeQueues _)).mono fun k => ?_
    rw [List.count_append, Nat.add_right_comm]
  | deliver _ delivery ih =>
    refine (ih.turn (Inert.onDelivery delivery _)).mono fun k => ?_
    rw [List.count_append, Nat.add_right_comm]
  | attempt _ mechanics key ih =>
    refine (ih.reconcile mechanics).mono fun k => ?_
    rw [List.count_append, List.count_append]
    omega
  | report _ key outcome ih => exact ih.inert (Inert.onOutcome key outcome)
  | remark _ event ih => exact ih.inert (Inert.record rfl)

/-- Every step of a system is one of such a run. -/
theorem Course.step {settings : Settings} {ns : String} {taken failed : List PromotionKey}
    {rules : Rules} {s s' : System} (h : Course settings ns taken failed s.world)
    (hs : System.Step rules s s') : ∃ taken failed, Course settings ns taken failed s'.world := by
  cases hs with
  | write ask allowed => exact ⟨_, _, h.write ask⟩
  | deliver received =>
    obtain ⟨position, -, rfl⟩ := System.receive_ok received
    exact ⟨_, _, (h.aside position _ _ _).deliver _⟩
  | take taken =>
    rw [run_takeKey] at taken
    cases taken
    exact ⟨_, _, h.aside _ _ _ _⟩
  | attempt key mechanics employed job tried =>
    have htried := h.attempt mechanics key
    rw [show (reconcile mechanics key).run.run _ = _ from tried] at htried
    exact ⟨_, _, htried⟩
  | report key outcome job => exact ⟨_, _, h.report key outcome⟩
  | giveBack key job => exact ⟨_, _, h.aside _ _ _ _⟩
  | elapse now onward => exact ⟨_, _, h.aside _ _ _ now⟩
  | retime delayed same => exact ⟨_, _, h.aside _ _ _ _⟩

theorem Course.beset {settings : Settings} {ns : String} {taken failed : List PromotionKey}
    {rules : Rules} {start s : System} (h : Course settings ns taken failed start.world)
    (hs : System.BesetReachable rules start s) :
    ∃ taken failed, Course settings ns taken failed s.world := by
  induction hs with
  | start => exact ⟨taken, failed, h⟩
  | step _ step ih =>
    obtain ⟨_, _, hc⟩ := ih
    exact hc.step step
  | beset _ d ih =>
    obtain ⟨_, _, hc⟩ := ih
    exact ⟨_, _, hc.aside _ _ d _⟩

/-- The promoter may be started over any store that a run has come to. -/
theorem Course.opened {settings : Settings} {ns : String} {taken failed : List PromotionKey}
    {r r' : Run} (h : Course settings ns taken failed r.world) (hr : r.open? = .ok r') :
    ∃ taken failed, Course settings ns taken failed r'.world := by
  have hadmitted := (h.aside r.world.store.feed.front r.world.queue r.world.disturbances
    r.world.now).admitAll
  unfold Run.open? at hr
  simp only at hr
  split at hr
  · cases hr
  · next n u hrun =>
    cases hr
    rw [show initializeQueues.run.run _ = _ from hrun] at hadmitted
    exact ⟨_, _, hadmitted.remark .controllerStarted⟩

end World

open World

/-- A promotion is activated at most once for each time that it took a stage, that its mark failed,
or that it started over; so it is at most once for each stage it took, unless there are marks that
failed or promotions that started over. -/
theorem activated_as_accounted {settings : Settings} {ns : String}
    {taken failed : List PromotionKey} {w : World} (h : Course settings ns taken failed w) :
    w.counters.activations = w.activated.length ∧
    (∀ k, w.activated.count k ≤ taken.count k + failed.count k + w.store.renewed.count k) ∧
    w.counters.activations ≤ taken.length + failed.length + w.store.renewed.length := by
  have haccounted := h.accounted
  refine ⟨haccounted.counted, haccounted.within, ?_⟩
  have hsub : w.activated.Subperm (taken ++ failed ++ w.store.renewed) :=
    List.subperm_ext_iff.mpr fun k _ => by
      simpa [List.count_append, Nat.add_assoc] using haccounted.within k
  rw [haccounted.counted, ← List.length_append, ← List.length_append]
  exact hsub.length_le

-- ---------------------------------------------------------------------------
-- A mark that fails
-- ---------------------------------------------------------------------------

namespace System.Sample

def unwritable : Disturbances :=
  ⟨[{ call := .updateStatus, disturbance := { outage := some "down" } }]⟩

def notMarked : World :=
  ((reconcile specCheck promotion.key).run.run (inHand.amid unwritable)).2

def markedLater : World := ((reconcile specCheck promotion.key).run.run notMarked).2

theorem course_markedLater : ∃ taken failed, Course {} "argocd" taken failed markedLater ∧
    taken = [promotion.key] ∧ failed = [promotion.key] := by
  have hworld : Course {} "argocd" [] [] world :=
    (Course.start.write (.upsertStage stage)).write (.create promotion)
  have hadmitted := (hworld.aside 1 world.queue world.disturbances world.now).deliver
    (.change (.promotionCreated (promotion.stamped 2)))
  have hinHand : Course {} "argocd" _ _ (inHand.amid unwritable) :=
    hadmitted.aside _ inHand.queue unwritable _
  exact ⟨_, _, (hinHand.attempt specCheck promotion.key).attempt specCheck promotion.key,
    by decide +kernel, by decide +kernel⟩

theorem activations_markedLater :
    markedLater.counters.activations = 2 ∧ markedLater.store.renewed = [] := by
  decide +kernel

end System.Sample

open System.Sample in
theorem activated_as_accounted_sample : ∃ taken failed w, Course {} "argocd" taken failed w ∧
    w.activated.length = 2 ∧ taken.length + failed.length + w.store.renewed.length = 2 := by
  obtain ⟨taken, failed, hcourse, rfl, rfl⟩ := course_markedLater
  obtain ⟨hcounted, -, -⟩ := activated_as_accounted hcourse
  obtain ⟨hactivations, hrenewed⟩ := activations_markedLater
  refine ⟨_, _, _, hcourse, hcounted.symm.trans hactivations, ?_⟩
  rw [hrenewed]
  rfl

open System.Sample in
theorem activated_twice : ∃ taken failed w, Course {} "argocd" taken failed w ∧
    taken = [promotion.key] ∧ w.counters.activations = 2 := by
  obtain ⟨taken, failed, hcourse, htaken, -⟩ := course_markedLater
  exact ⟨taken, failed, markedLater, hcourse, htaken, activations_markedLater.1⟩

end StageGate
