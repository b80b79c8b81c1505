import StageGate.Proofs.Promoter.LateEvent
import StageGate.Proofs.Promoter.Outages

/-!
# A resync that fails

A resync may fail while it frees stages, at a look or when it asks for the promotions there are. It
has admitted nobody and sent nobody by then: `WentOver` says how far it has come. Main statement:
`stranded_by_resync_iff`. A stage that it has freed is stranded exactly if the first promotion in
its line that has not ended was not asked for before. That happens: `resync_strands`.
-/

namespace StageGate

-- ---------------------------------------------------------------------------
-- Stages that are freed
-- ---------------------------------------------------------------------------

namespace Gate

variable {g : Gate} {ended : PromotionKey → Bool} {k : PromotionKey}

def freeEnded (ended : PromotionKey → Bool) (g : Gate) : Gate :=
  if g.holder.any ended then { g with holder := none } else g

def firstOpen? (ended : PromotionKey → Bool) (g : Gate) : Option PromotionKey :=
  (g.waiting.items.find? fun e => !ended e.key).map Entry.key

@[simp] theorem waiting_freeEnded : (g.freeEnded ended).waiting = g.waiting := by
  unfold freeEnded
  split <;> rfl

@[simp] theorem freeEnded_twice :
    (g.freeEnded ended).freeEnded ended = g.freeEnded ended := by
  unfold freeEnded
  by_cases h : g.holder.any ended = true <;> simp [h]

theorem holder_freeEnded (h : g.holder = some k) :
    (g.freeEnded ended).holder = if ended k then none else some k := by
  unfold freeEnded
  by_cases hk : ended k = true <;> simp [h, hk]

end Gate

namespace Gates

variable {gs : Gates} {stage other : StageKey} {ended : PromotionKey → Bool}

def freeEnded (ended : PromotionKey → Bool) (gs : Gates) (stage : StageKey) : Gates :=
  match gs.active? stage with
  | some k => if ended k then (gs.conclude stage k).2 else gs
  | none => gs

theorem gate_freeEnded : (gs.freeEnded ended stage).gate other =
    if other = stage then (gs.gate stage).freeEnded ended else gs.gate other := by
  unfold freeEnded Gate.freeEnded active?
  cases hh : (gs.gate stage).holder with
  | none =>
    simp only [Option.any_none]
    split
    · next ho => rw [ho]; rfl
    · rfl
  | some k =>
    simp only [Option.any_some]
    by_cases hk : ended k = true
    · rw [if_pos hk, if_pos hk, gate_conclude, Gate.conclude_of_holder hh]
    · rw [if_neg hk, if_neg hk]
      split
      · next ho => rw [ho]
      · rfl

theorem gate_foldl_freeEnded (stages : List StageKey) :
    (stages.foldl (freeEnded ended) gs).gate stage =
      if stage ∈ stages then (gs.gate stage).freeEnded ended else gs.gate stage := by
  induction stages generalizing gs with
  | nil => simp
  | cons first stages ih =>
    simp only [List.foldl_cons, ih, gate_freeEnded, List.mem_cons]
    by_cases hf : stage = first
    · subst hf
      simp
    · simp [hf]

end Gates

namespace World

variable {w u v : World} {stage : StageKey} {k : PromotionKey} {done more : List StageKey}
  {e : StoreError}

-- ---------------------------------------------------------------------------
-- How far a resync comes
-- ---------------------------------------------------------------------------

/-- Between two worlds these stages were gone over and freed of whoever has ended. The lines, the
queue and the store are as they were. -/
structure WentOver (w : World) (done : List StageKey) (u : World) : Prop where
  same : ∃ counters log d, u = { w with
    gates := done.foldl (Gates.freeEnded w.store.hasEnded) w.gates
    counters, log, disturbances := d }
  outages : u.OnlyOutages

theorem WentOver.refl (h : w.OnlyOutages) : w.WentOver [] w := ⟨⟨_, _, _, rfl⟩, h⟩

theorem stored_of_seen {p? : Option Promotion} (h : w.seen k = .ok p?) :
    p? = w.store.promotion? k := by
  unfold seen at h
  split at h
  · cases h
  · exact (Except.ok.inj h).symm

theorem WentOver.trans (h : w.WentOver done u) (h' : u.WentOver more v) :
    w.WentOver (done ++ more) v := by
  obtain ⟨counters, log, d, rfl⟩ := h.same
  obtain ⟨counters', log', d', rfl⟩ := h'.same
  refine ⟨⟨counters', log', d', ?_⟩, h'.outages⟩
  simp only [List.foldl_append]

theorem releaseStale_outages (ho : w.OnlyOutages) (stage : StageKey) :
    ∃ u, (releaseStale stage).run.run w = (.ok (), u) ∧ w.WentOver [stage] u ∨
      ∃ e, (releaseStale stage).run.run w = (.error e, u) ∧ w.WentOver [] u := by
  cases ha : w.gates.active? stage with
  | none =>
    have hidle : w.gates.freeEnded w.store.hasEnded stage = w.gates := by simp [Gates.freeEnded, ha]
    exact ⟨w, .inl ⟨releaseStale_idle ha, ⟨w.counters, w.log, w.disturbances, by simp [hidle]⟩, ho⟩⟩
  | some k =>
    let looked : World := { w with disturbances := w.disturbances.rest .readPromotion }
    have hread : (readPromotion k).run w = (w.seen k, looked) := readPromotion_run ho k
    have houtages : looked.OnlyOutages := ho.rest _
    cases hseen : w.seen k with
    | error e =>
      rw [hseen] at hread
      exact ⟨looked, .inr ⟨e, releaseStale_error ha hread,
        ⟨w.counters, w.log, looked.disturbances, rfl⟩, houtages⟩⟩
    | ok p? =>
      rw [hseen] at hread
      obtain ⟨counters, log, hr⟩ := releaseStale_ok ha hread
      refine ⟨_, .inl ⟨hr, ?_⟩⟩
      have hended : p?.all Promotion.isTerminal = w.store.hasEnded k := by
        rw [stored_of_seen hseen]
        rfl
      by_cases hk : w.store.hasEnded k = true
      · rw [hended, if_pos hk]
        refine ⟨⟨counters, log, looked.disturbances, ?_⟩, houtages⟩
        simp [Gates.freeEnded, ha, hk, looked]
      · rw [hended, if_neg hk]
        refine ⟨⟨w.counters, w.log, looked.disturbances, ?_⟩, houtages⟩
        simp [Gates.freeEnded, ha, hk, looked]

theorem freeAll_outages (ho : w.OnlyOutages) (stages : List StageKey) : ∃ done u,
    done <+: stages ∧ w.WentOver done u ∧
      ((stages.forM releaseStale).run.run w = (.ok (), u) ∨
        ∃ e, (stages.forM releaseStale).run.run w = (.error e, u)) := by
  induction stages generalizing w with
  | nil => exact ⟨[], w, List.nil_prefix, .refl ho, .inl rfl⟩
  | cons stage rest ih =>
    rw [List.forM, attempt_bind]
    obtain ⟨u, ⟨hr, hu⟩ | ⟨e, hr, hu⟩⟩ := releaseStale_outages ho stage
    · obtain ⟨done, v, hprefix, hv, hrun⟩ := ih hu.outages
      rw [hr]
      exact ⟨stage :: done, v, List.cons_prefix_cons.mpr ⟨rfl, hprefix⟩, hu.trans hv, hrun⟩
    · rw [hr]
      exact ⟨[], u, List.nil_prefix, hu, .inr ⟨e, rfl⟩⟩

theorem initializeQueues_failed (ho : w.OnlyOutages)
    (failed : initializeQueues.run.run w = (.error e, u)) : w.WentOver [] u := by
  obtain ⟨outage, hout⟩ := ho.next .listPromotions
  let asked : World := { w with disturbances := w.disturbances.rest .listPromotions }
  have houtages : asked.OnlyOutages := ho.rest _
  have hlist : (ExceptT.mk listPromotions).run.run w =
      ((match outage with
        | some text => .error (.unavailable text)
        | none => .ok w.store.promotionList), asked) := by
    show callStore .listPromotions none (fun s => (.ok s.promotionList, s)) w = _
    unfold callStore
    simp only [hout]
    cases outage <;> rfl
  unfold initializeQueues at failed
  rw [attempt_bind, hlist] at failed
  cases outage with
  | some text =>
    obtain rfl : asked = u := (Prod.mk.inj failed).2
    exact ⟨⟨w.counters, w.log, asked.disturbances, rfl⟩, houtages⟩
  | none =>
    refine absurd failed (Runs.ne_error (Q := fun _ _ => True) ?_)
    refine Runs.bind_ok rfl (Runs.bind (R := fun _ _ => True) ?_ fun _ _ _ => ⟨_, _, rfl, trivial⟩)
    exact Runs.forM (I := fun _ _ => True) (fun p _ _ _ => Runs.lift trivial) trivial

theorem restore_failed (ho : w.OnlyOutages) (failed : restore.run.run w = (.error e, u)) :
    ∃ done, done <+: w.gates.stages ∧ w.WentOver done u := by
  unfold restore at failed
  simp only [attempt_bind, attempt_get] at failed
  obtain ⟨done, v, hprefix, hv, hrun | ⟨err, hrun⟩⟩ := freeAll_outages ho w.gates.stages
  · simp only [hrun] at failed
    rcases hround : initializeQueues.run.run v with ⟨err | n, x⟩
    · rw [hround] at failed
      obtain rfl : x = u := (Prod.mk.inj failed).2
      have hall : w.WentOver (done ++ []) x :=
        hv.trans (initializeQueues_failed hv.outages hround)
      rw [List.append_nil] at hall
      exact ⟨done, hprefix, hall⟩
    · rw [hround] at failed
      cases failed
  · simp only [hrun] at failed
    cases failed
    exact ⟨done, hprefix, hv⟩

/-- A resync that fails has gone over some of the stages, and has done nothing else. -/
theorem resync_failed (ho : w.OnlyOutages) (failed : resync.run.run w = (.error e, u)) :
    ∃ done, done <+: w.gates.stages ∧ w.WentOver done u := by
  rw [run_resync] at failed
  split at failed
  · cases failed
  · next hr =>
    cases failed
    exact restore_failed ho hr

-- ---------------------------------------------------------------------------
-- Stages without help
-- ---------------------------------------------------------------------------

/-- Nobody holds the stage, and nobody has asked for the first promotion in its line that has not
ended. -/
def Stranded (w : World) (stage : StageKey) : Prop :=
  w.gates.active? stage = none ∧
    ∃ k, (w.gates.gate stage).firstOpen? w.store.hasEnded = some k ∧ ¬ w.queue.Awaits k

/-- Whatever calls of a resync fail: if it fails, then the store, the queue and every line are as
they were, and a stage that lost its holder has lost one that has ended. Such a stage is stranded
exactly if the first promotion in its line that has not ended was not asked for before. -/
theorem stranded_by_resync_iff (ho : w.OnlyOutages)
    (failed : resync.run.run w = (.error e, u)) (held : w.gates.active? stage = some k)
    (cleared : u.gates.active? stage ≠ some k) :
    u.store = w.store ∧ u.queue = w.queue ∧ u.gates.active? stage = none ∧
      u.gates.pending stage = w.gates.pending stage ∧ w.store.hasEnded k = true ∧
      (u.Stranded stage ↔ ∃ j, (w.gates.gate stage).firstOpen? w.store.hasEnded = some j ∧
        ¬ w.queue.Awaits j) := by
  obtain ⟨done, -, ⟨counters, log, d, rfl⟩, -⟩ := resync_failed ho failed
  have hholder : (w.gates.gate stage).holder = some k := held
  have hgate : (done.foldl (Gates.freeEnded w.store.hasEnded) w.gates).gate stage =
      if stage ∈ done then (w.gates.gate stage).freeEnded w.store.hasEnded
      else w.gates.gate stage := Gates.gate_foldl_freeEnded done
  unfold Gates.active? at cleared
  simp only [hgate] at cleared
  by_cases hdone : stage ∈ done
  · rw [if_pos hdone] at hgate cleared
    rw [Gate.holder_freeEnded hholder] at cleared
    have hended : w.store.hasEnded k = true :=
      Decidable.byContradiction fun hopen => cleared (if_neg hopen)
    have hidle : (done.foldl (Gates.freeEnded w.store.hasEnded) w.gates).active? stage = none := by
      unfold Gates.active?
      rw [hgate, Gate.holder_freeEnded hholder, if_pos hended]
    refine ⟨rfl, rfl, hidle, ?_, hended, ?_⟩
    · unfold Gates.pending Gate.pending
      simp only [hgate, Gate.waiting_freeEnded]
    · unfold Stranded Gate.firstOpen?
      simp only [hgate, hidle, Gate.waiting_freeEnded, true_and]
  · rw [if_neg hdone] at cleared
    exact absurd hholder cleared

end World

-- ---------------------------------------------------------------------------
-- A stage that is freed for nobody
-- ---------------------------------------------------------------------------

namespace System.Sample

def unanswered : Disturbances :=
  ⟨[{ call := .listPromotions, disturbance := { outage := some "down" } }]⟩

theorem unanswered_outages (w : World) : (w.amid unanswered).OnlyOutages := by
  intro s hs
  rw [List.mem_singleton.mp hs]
  exact ⟨some "down", rfl⟩

/-- The holder of the stage is deleted, which the promoter has not heard of, and somebody has asked
for the promotion that waits there. -/
def asked : World := ((World.enqueue ⟨"ns", "b"⟩).run unheard).2

end System.Sample

open World System.Sample

/-- A stage is not stranded where the promotion that waits there was asked for before. -/
theorem stranded_by_resync_iff_sample : ∃ w e u stage, w.OnlyOutages ∧
    resync.run.run w = (.error e, u) ∧ w.gates.active? stage = some ⟨"ns", "a"⟩ ∧
    u.gates.active? stage = none ∧ u.gates.pending stage = [⟨"ns", "b"⟩] ∧
    ¬ u.Stranded stage := by
  let w := asked.amid unanswered
  have hheld : w.gates.active? ⟨"ns", "prod"⟩ = some ⟨"ns", "a"⟩ := by decide +kernel
  have hfirst : (w.gates.gate ⟨"ns", "prod"⟩).firstOpen? w.store.hasEnded = some ⟨"ns", "b"⟩ := by
    decide +kernel
  have hasked : w.queue.Awaits ⟨"ns", "b"⟩ := .inl (by decide +kernel)
  have hfailed : (resync.run.run w).1 = .error (.unavailable "down") := rfl
  have hidle : (resync.run.run w).2.gates.active? ⟨"ns", "prod"⟩ ≠ some ⟨"ns", "a"⟩ := by
    decide +kernel
  obtain ⟨-, -, hnone, hline, -, hstranded⟩ := stranded_by_resync_iff (unanswered_outages asked)
    (Prod.ext hfailed rfl) hheld hidle
  refine ⟨w, _, _, _, unanswered_outages asked, Prod.ext hfailed rfl, hheld, hnone,
    hline.trans (by decide +kernel), fun hs => ?_⟩
  obtain ⟨j, hj, hunasked⟩ := hstranded.mp hs
  obtain rfl := Option.some.inj (hfirst.symm.trans hj)
  exact hunasked hasked

/-- A resync frees a stage and fails before it sends the promotion that waits there. -/
theorem resync_strands : ∃ s d e u stage, System.Reachable .free (.empty {} "argocd") s ∧
    (s.world.amid d).OnlyOutages ∧ resync.run.run (s.world.amid d) = (.error e, u) ∧
    s.world.gates.active? stage = some ⟨"ns", "a"⟩ ∧ u.Stranded stage := by
  have hfailed : (resync.run.run (unheard.amid unanswered)).1 = .error (.unavailable "down") := rfl
  refine ⟨_, unanswered, _, _, ⟨"ns", "prod"⟩, unheard_reachable, unanswered_outages unheard,
    Prod.ext hfailed rfl, by decide +kernel, by decide +kernel, ⟨"ns", "b"⟩, by decide +kernel, ?_⟩
  rintro (hdirty | hdelayed)
  · revert hdirty
    decide +kernel
  · revert hdelayed
    decide +kernel

end StageGate
