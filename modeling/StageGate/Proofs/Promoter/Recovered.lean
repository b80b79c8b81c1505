import StageGate.Proofs.Promoter.LateEvent
import StageGate.Proofs.WorkQueue.Requests

/-!
# A resync loses nobody

A resync starts from gates and a queue that may say anything: the promoter missed some changes, and
nothing is known of which. Main statement: `placed_by_resync`. Every promotion that the promoter
works on is at its stage afterwards, as its holder or in line; every such stage has a holder; and
one that holds its stage is asked for. The admissions bring this about, one promotion after the
other, and neither a later admission nor the dispatch undoes it.
-/

namespace StageGate.World

variable {w u : World} {p q : Promotion} {k : PromotionKey}

-- ---------------------------------------------------------------------------
-- Requests stay
-- ---------------------------------------------------------------------------

theorem dirty_admitted (opened : w.queue.closed = false) (key : PromotionKey) (a : Admission) :
    w.queue.dirty ⊆ (w.admitted key a).dirty := by
  intro k hk
  cases a with
  | becameActive => exact (WorkQueue.mem_dirty_add opened).mpr (.inr hk)
  | queued => exact hk

theorem dirty_dispatched (opened : w.queue.closed = false) (g : Gate) :
    w.queue.dirty ⊆ (w.dispatched g).dirty := by
  intro k hk
  unfold dispatched
  split
  · exact hk
  · next next _ =>
    let counted : WorkQueue :=
      { w.queue with backoff := (w.queue.backoff.record next .zero).2 }
    have hcounted : counted.closed = false := opened
    exact (WorkQueue.mem_dirty_addAfter hcounted).mpr (.inr hk)

-- ---------------------------------------------------------------------------
-- Promotions that are placed
-- ---------------------------------------------------------------------------

/-- The promotion is at its stage, which has a holder. Where that is the promotion itself, a worker
will get to it. -/
structure Placed (u : World) (p : Promotion) : Prop where
  stands : (u.gates.gate p.stageKey).Stands p.key
  taken : (u.gates.active? p.stageKey).isSome = true
  asked : u.gates.active? p.stageKey = some p.key → p.key ∈ u.queue.dirty

theorem Placed.mono (h : w.Placed p)
    (stands : (w.gates.gate p.stageKey).Stands p.key → (u.gates.gate p.stageKey).Stands p.key)
    (holder : u.gates.active? p.stageKey = w.gates.active? p.stageKey)
    (dirty : w.queue.dirty ⊆ u.queue.dirty) : u.Placed p where
  stands := stands h.stands
  taken := by rw [holder]; exact h.taken
  asked ha := dirty (h.asked (holder ▸ ha))

theorem placed_onPromotionCreated (opened : w.queue.closed = false)
    (hp : w.settings.worksOn p = true) : ((onPromotionCreated p).run w).2.Placed p := by
  obtain ⟨counters, log, hr⟩ := onPromotionCreated_run hp
  have hgate : (w.gates.enroll p.stageKey (.ofPromotion p)).2.gate p.stageKey =
      ((w.gates.gate p.stageKey).enroll w.gates.order (.ofPromotion p)).2 := by
    rw [Gates.gate_enroll, if_pos rfl]
  rw [hr]
  refine ⟨?_, ?_, fun ha => ?_⟩
  · rw [hgate]
    exact Gate.stands_enroll.mpr (.inl rfl)
  · rw [Gates.active?_enroll, if_pos rfl]
    rfl
  · have hholder : ((w.gates.enroll p.stageKey (.ofPromotion p)).2.gate p.stageKey).holder =
        some p.key := ha
    rw [hgate] at hholder
    have hadmitted : (w.gates.enroll p.stageKey (.ofPromotion p)).1 = .becameActive :=
      Gate.becameActive_of_holder hholder
    rw [hadmitted]
    exact (WorkQueue.mem_dirty_add opened).mpr (.inl rfl)

theorem Placed.onPromotionCreated (h : w.Placed p) (opened : w.queue.closed = false)
    (q : Promotion) : ((World.onPromotionCreated q).run w).2.Placed p := by
  by_cases hq : w.settings.worksOn q = true
  · obtain ⟨counters, log, hr⟩ := onPromotionCreated_run hq
    rw [hr]
    refine h.mono (fun hs => ?_) ?_ (dirty_admitted opened _ _)
    · rw [Gates.gate_enroll]
      split
      · next ho => exact Gate.stands_enroll.mpr (.inr (ho ▸ hs))
      · exact hs
    · obtain ⟨holder, hholder⟩ := Option.isSome_iff_exists.mp h.taken
      rw [Gates.active?_enroll]
      split
      · next ho => rw [← ho, hholder]; rfl
      · rfl
  · rw [onPromotionCreated_pass (by simpa using hq)]
    exact h

theorem Placed.enqueueNext (h : w.Placed p) (quiet : w.Quiet) (opened : w.queue.closed = false)
    (unended : w.store.hasEnded p.key = false) (stage : StageKey) :
    ((World.enqueueNext stage).run w).2.Placed p := by
  refine h.mono (fun hs => ?_) (enqueueNext_holders stage p.stageKey w) ?_
  · obtain ⟨counters, log, hr⟩ := enqueueNext_quiet quiet stage
    rw [hr]
    rw [Gates.gate_passEnded]
    split
    · next ho => exact Gate.stands_passEnded (ho ▸ hs) unended
    · exact hs
  · obtain ⟨counters, log, hr⟩ := enqueueNext_quiet quiet stage
    rw [hr]
    exact dirty_dispatched opened _

-- ---------------------------------------------------------------------------
-- Everybody is placed
-- ---------------------------------------------------------------------------

def Owes (w : World) (p : Promotion) : Prop :=
  w.store.promotion? p.key = some p ∧ w.settings.worksOn p = true

theorem Owes.unended (h : w.Owes p) : w.store.hasEnded p.key = false := by
  rw [Store.hasEnded_of_stored h.1]
  exact (Settings.worksOn_iff.mp h.2).1

/-- The admissions place one promotion after the other: each is placed, or is still to be
admitted. -/
theorem resync_places (quiet : w.Quiet) (opened : w.queue.closed = false) :
    Runs resync w fun _ u => w.Keeps u ∧ ∀ p, w.Owes p → u.Placed p := by
  refine runs_resync (F := fun _ => w.Keeps)
    (A := fun list u => w.Keeps u ∧ ∀ p, w.Owes p → p ∈ list ∨ u.Placed p)
    (D := fun _ u => w.Keeps u ∧ ∀ p, w.Owes p → u.Placed p)
    (.refl w) (fun stage _ u hu => hu.releaseStale (hu.quiet quiet) stage)
    ?freed ?enroll ?enrolled ?send
  case freed =>
    intro u hu
    refine ⟨hu.quiet quiet, hu, ?_⟩
    rintro p ⟨hp, hw⟩
    rw [hu.store, hu.settings]
    exact .inl (mem_toAdmit.mpr ⟨Store.mem_promotionList_iff.mpr ⟨p.key, hp⟩, hw⟩)
  case enroll =>
    rintro p rest u ⟨hu, hall⟩
    have hopened : u.queue.closed = false := hu.closed.trans opened
    refine ⟨hu.trans (keeps_onPromotionCreated p), fun q hq => ?_⟩
    rcases hall q hq with hlist | hplaced
    · rcases List.mem_cons.mp hlist with rfl | hrest
      · exact .inr (placed_onPromotionCreated hopened (hu.settings ▸ hq.2))
      · exact .inl hrest
    · exact .inr (hplaced.onPromotionCreated hopened p)
  case enrolled =>
    rintro u log ⟨hu, hall⟩
    refine ⟨hu.relog log, fun p hp => ?_⟩
    have hplaced : u.Placed p := (hall p hp).resolve_left List.not_mem_nil
    exact hplaced.mono id rfl (List.Subset.refl _)
  case send =>
    rintro stage _ u ⟨hu, hall⟩
    have hquiet : u.Quiet := hu.quiet quiet
    refine ⟨hu.trans (keeps_enqueueNext hquiet stage), fun p hp => ?_⟩
    have hopen : u.store.hasEnded p.key = false := by simpa [hu.store] using hp.unended
    exact (hall p hp).enqueueNext hquiet (hu.closed.trans opened) hopen stage

/-- Whatever the gates are like, and whatever an open queue holds: a resync with the store at rest
succeeds, and it places every stored promotion that the promoter works on. Such a promotion holds
its stage or is in line there, the stage has a holder, and a promotion that holds its stage is asked
for: it is ready, or parked with the worker who held it before. -/
theorem placed_by_resync (quiet : w.Quiet) (opened : w.queue.closed = false) :
    Runs resync w fun _ u => u.store = w.store ∧
      ∀ p, w.store.promotion? p.key = some p → w.settings.worksOn p = true →
        (u.gates.active? p.stageKey = some p.key ∨ p.key ∈ u.gates.pending p.stageKey) ∧
        (u.gates.active? p.stageKey).isSome = true ∧
        (u.gates.active? p.stageKey = some p.key → p.key ∈ u.queue.dirty ∧
          (w.queue.Sound → p.key ∈ u.queue.ready ∨ p.key ∈ w.queue.held)) := by
  obtain ⟨_, u, hr, hu, hall⟩ := resync_places quiet opened
  refine ⟨(), u, hr, hu.store, fun p hp hw => ?_⟩
  have hplaced : u.Placed p := hall p ⟨hp, hw⟩
  refine ⟨hplaced.stands, hplaced.taken, fun ha => ⟨hplaced.asked ha, fun hsound => ?_⟩⟩
  by_cases hheld : p.key ∈ w.queue.held
  · exact .inr hheld
  · rw [← hu.held] at hheld
    exact .inl (((hu.sound hsound).mem_ready p.key).mpr ⟨hplaced.asked ha, hheld⟩)

open System.Sample in
theorem placed_by_resync_sample : ∃ w p q, w.Quiet ∧ w.queue.closed = false ∧
    w.store.promotion? p.key = some p ∧ w.settings.worksOn p = true ∧
    w.store.hasEnded ⟨"ns", "a"⟩ = true ∧ w.gates.active? p.stageKey = some ⟨"ns", "a"⟩ ∧
    w.store.promotion? q.key = some q ∧ w.settings.worksOn q = true ∧
    q.stageKey ∉ w.gates.stages ∧
    Runs resync w fun _ u =>
      (u.gates.active? p.stageKey).isSome = true ∧ (u.gates.active? q.stageKey).isSome = true := by
  let w := written unheard (.create (named "c" "test"))
  let p := (named "b" "prod").stamped 2
  let q := (named "c" "test").stamped 3
  have hp : w.store.promotion? p.key = some p := by decide +kernel
  have hq : w.store.promotion? q.key = some q := by decide +kernel
  have hw : w.settings.worksOn p = true ∧ w.settings.worksOn q = true := by decide +kernel
  obtain ⟨_, u, hr, -, hall⟩ := placed_by_resync (w := w) rfl (by decide +kernel)
  refine ⟨w, p, q, rfl, ?_, hp, hw.1, ?_, ?_, hq, hw.2, ?_, _, u, hr, (hall p hp hw.1).2.1,
    (hall q hq hw.2).2.1⟩ <;> decide +kernel

end StageGate.World
