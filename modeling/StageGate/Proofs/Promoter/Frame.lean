import StageGate.Proofs.Promoter.Attempt

/-!
# What the promoter's own actions leave alone

Whatever the promoter does about a change or after missed changes, it writes nothing to the store
and takes no stage from a promotion that has not ended. `Keeps` says so; it is proved for one
action after the other and holds along a sequence of them.
-/

namespace StageGate.World

structure Keeps (w u : World) : Prop where
  settings : u.settings = w.settings
  disturbances : u.disturbances = w.disturbances
  store : u.store = w.store
  position : u.position = w.position
  held : u.queue.held = w.queue.held
  closed : u.queue.closed = w.queue.closed
  sound : w.queue.Sound → u.queue.Sound
  holders : ∀ stage k, w.gates.active? stage = some k → w.store.hasEnded k = false →
    u.gates.active? stage = some k

variable {w u v : World} {stage : StageKey} {k : PromotionKey} {c : Change} {p : Promotion}

theorem Keeps.refl (w : World) : w.Keeps w := ⟨rfl, rfl, rfl, rfl, rfl, rfl, id, fun _ _ h _ => h⟩

theorem Keeps.trans (h : w.Keeps u) (h' : u.Keeps v) : w.Keeps v where
  settings := h'.settings.trans h.settings
  disturbances := h'.disturbances.trans h.disturbances
  store := h'.store.trans h.store
  position := h'.position.trans h.position
  held := h'.held.trans h.held
  closed := h'.closed.trans h.closed
  sound hs := h'.sound (h.sound hs)
  holders stage k ha he := h'.holders stage k (h.holders stage k ha he) (by rw [h.store]; exact he)

theorem Keeps.quiet (h : w.Keeps u) (hw : w.Quiet) : u.Quiet := h.disturbances.trans hw

-- ---------------------------------------------------------------------------
-- The gates and the queue
-- ---------------------------------------------------------------------------

structure Fed (q q' : WorkQueue) : Prop where
  held : q'.held = q.held
  closed : q'.closed = q.closed
  sound : q.Sound → q'.Sound

theorem Fed.refl (q : WorkQueue) : Fed q q := ⟨rfl, rfl, id⟩

theorem fed_add (q : WorkQueue) (k : PromotionKey) : Fed q (q.add k) :=
  ⟨WorkQueue.held_add q k, WorkQueue.closed_add q k, (·.add k)⟩

theorem fed_dispatched (w : World) (g : Gate) : Fed w.queue (w.dispatched g) := by
  unfold dispatched
  split
  · exact .refl _
  · exact ⟨WorkQueue.held_addRateLimited _ _, WorkQueue.closed_addRateLimited _ _,
      (·.addRateLimited _ _ _)⟩

theorem fed_admitted (w : World) (k : PromotionKey) (a : Admission) :
    Fed w.queue (w.admitted k a) := by
  cases a with
  | becameActive => exact fed_add _ _
  | queued => exact .refl _

def Holds (w : World) (gates : Gates) : Prop := ∀ stage k, w.gates.active? stage = some k →
  w.store.hasEnded k = false → gates.active? stage = some k

theorem Holds.refl (w : World) : w.Holds w.gates := fun _ _ h _ => h

theorem keeps_of {gates : Gates} {queue : WorkQueue} (hg : w.Holds gates) (hq : Fed w.queue queue)
    (counters : Counters) (log : List LogRecord) :
    w.Keeps { w with gates, queue, counters, log } :=
  ⟨rfl, rfl, rfl, rfl, hq.held, hq.closed, hq.sound, hg⟩

theorem holds_enroll (e : Entry) : w.Holds (w.gates.enroll stage e).2 := by
  intro other k ha _
  show ((w.gates.enroll stage e).2.gate other).holder = some k
  rw [Gates.gate_enroll]
  split
  · next ho =>
    have hh : (w.gates.gate stage).holder = some k := ho ▸ ha
    rw [Gate.holder_enroll, hh]
    rfl
  · exact ha

theorem holds_claim (e : Entry) : w.Holds (w.gates.claim stage e).2 := by
  intro other k ha _
  show ((w.gates.claim stage e).2.gate other).holder = some k
  rw [Gates.gate_claim]
  split
  · next ho =>
    have hh : (w.gates.gate stage).holder = some k := ho ▸ ha
    rcases Gate.claim_cases w.gates.order (w.gates.gate stage) e with
      ⟨-, hholder, hfree⟩ | ⟨a, -, -, hc⟩ | ⟨head, hnone, -⟩
    · rw [hh] at hfree
      rcases hfree with hfree | hfree
      · cases hfree
      · rw [hholder, hfree]
    · rw [hc]; exact hh
    · rw [hh] at hnone; cases hnone
  · exact ha

theorem holds_conclude (hk : w.store.hasEnded k = true) : w.Holds (w.gates.conclude stage k).2 := by
  intro other j ha hj
  show ((w.gates.conclude stage k).2.gate other).holder = some j
  rw [Gates.gate_conclude]
  split
  · next ho =>
    have hh : (w.gates.gate stage).holder = some j := ho ▸ ha
    have hne : (w.gates.gate stage).holder ≠ some k := by
      rw [hh]
      rintro ⟨⟩
      rw [hk] at hj
      cases hj
    rw [Gate.conclude_of_not_holder hne]
    exact hh
  · exact ha

theorem holds_passEnded (ended : PromotionKey → Bool) :
    w.Holds (w.gates.passEnded ended stage) := by
  intro other k ha _
  show ((w.gates.passEnded ended stage).gate other).holder = some k
  rw [Gates.gate_passEnded]
  split
  · next ho => rw [Gate.holder_passEnded, ← ho]; exact ha
  · exact ha

-- ---------------------------------------------------------------------------
-- Actions
-- ---------------------------------------------------------------------------

theorem keeps_enqueueNext (h : w.Quiet) (stage : StageKey) :
    w.Keeps ((enqueueNext stage).run w).2 := by
  obtain ⟨counters, log, hr⟩ := enqueueNext_quiet h stage
  rw [hr]
  exact keeps_of (holds_passEnded _) (fed_dispatched w _) counters log

theorem keeps_tried {mechanics : Mechanics} {key : PromotionKey}
    {outcome : Except ReconcileError Outcome} (h : w.Quiet) (ht : Tried mechanics key w outcome u) :
    w.Keeps u ∨ ∃ p running s s' counters log, w.store.promotion? key = some p ∧
      p.isTerminal = false ∧ (w.gates.claim p.stageKey (.ofPromotion p)).1 = .activated ∧
      Marked w.store p running s ∧ Concluded mechanics s running outcome s' ∧
      u = { w with
        gates := (w.gates.claim p.stageKey (.ofPromotion p)).2, store := s', counters, log } := by
  cases ht with
  | ended past counters => exact .inl (keeps_of (.refl w) (.refl _) counters w.log)
  | busy p stored unended other claim counters log =>
    exact .inl (keeps_of (holds_claim _) (.refl _) counters log)
  | behind p stored unended head claim counters log =>
    have hclaim : w.Holds (w.gates.claim p.stageKey (.ofPromotion p)).2 := holds_claim _
    have hk := keeps_of hclaim (.refl w.queue) counters log
    exact .inl (hk.trans (keeps_enqueueNext (hk.quiet h) _))
  | ran p stored unended claim running s s' marked concluded counters log =>
    exact .inr ⟨p, running, s, s', counters, log, stored, unended, claim, marked, concluded, rfl⟩

theorem keeps_release (h : w.Quiet) (hk : w.store.hasEnded k = true) :
    w.Keeps ((release stage k).run w).2 := by
  obtain ⟨counters, log, hr⟩ := release_run stage k w
  rw [hr]
  have hc : w.Keeps { w with gates := (w.gates.conclude stage k).2, counters, log } :=
    keeps_of (holds_conclude hk) (.refl _) counters log
  exact hc.trans (keeps_enqueueNext (hc.quiet h) stage)

theorem keeps_onPromotionCreated (p : Promotion) : w.Keeps ((onPromotionCreated p).run w).2 := by
  by_cases hp : w.settings.worksOn p = true
  · obtain ⟨counters, log, hr⟩ := onPromotionCreated_run hp
    rw [hr]
    exact keeps_of (holds_enroll _) (fed_admitted w _ _) counters log
  · rw [onPromotionCreated_pass (by simpa using hp)]
    exact .refl w

/-- `past` says that an end that a change tells of is one. -/
theorem keeps_handle (h : w.Quiet) (past : ∀ p, c.ended? = some p → w.store.hasEnded p.key = true) :
    w.Keeps ((handle c).run w).2 := by
  cases he : c.ended? with
  | some p =>
    rw [handle_ended he]
    split
    · exact keeps_release h (past p he)
    · exact .refl w
  | none =>
    cases c with
    | promotionCreated p => exact keeps_onPromotionCreated p
    | promotionUpdated old new => rw [handle_passed he]; exact .refl w
    | promotionDeleted p => cases he
    | applicationUpdated old new =>
      refine handle_application h old new (I := w.Keeps) (.refl w) ?_
      intro _ p u counters log _ hu _
      exact hu.trans (keeps_of (.refl u) (fed_add _ p.key) counters log)

theorem Keeps.releaseStale (h : w.Keeps u) (hu : u.Quiet) (stage : StageKey) :
    Runs (World.releaseStale stage) u fun _ v => w.Keeps v :=
  releaseStale_quiet hu stage (fun _ => h) (fun _ _ _ => h)
    fun _ counters log _ hk => h.trans (keeps_of (holds_conclude hk) (.refl _) counters log)

theorem Keeps.relog (h : w.Keeps u) (log : List LogRecord) : w.Keeps { u with log } :=
  h.trans (keeps_of (.refl u) (.refl _) u.counters log)

theorem keeps_restore (h : w.Quiet) : Runs restore w fun _ u => w.Keeps u := by
  refine restore_run (F := fun _ => w.Keeps) (A := fun _ => w.Keeps) (.refl w) ?free
    (fun u hu => ⟨hu.quiet h, hu⟩) ?enroll (fun _ log hu => hu.relog log)
  case free => exact fun stage _ u hu => hu.releaseStale (hu.quiet h) stage
  case enroll => exact fun p _ u hu => hu.trans (keeps_onPromotionCreated p)

theorem keeps_resync (h : w.Quiet) : w.Keeps (resync.run.run w).2 := by
  obtain ⟨_, u, hr, hu⟩ := keeps_restore h
  rw [resync_of_restore hr]
  exact sendAll_run (D := fun _ => w.Keeps) hu
    fun stage _ v hv => hv.trans (keeps_enqueueNext (hv.quiet h) stage)

end StageGate.World
