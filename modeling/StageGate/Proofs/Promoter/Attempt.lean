import StageGate.Proofs.Promoter.Actions

/-!
# One attempt in a quiet world

`Tried` lists the ways in which an attempt at a promotion can go where nobody comes between: the
promotion has ended; its stage is busy; another one is first in line; or it takes the stage, is
marked as running and ends with the status that `conclusion` gives, unless the mechanics leave it
unfinished. Main statement: `reconcile_quiet`, there is no other way.
-/

namespace StageGate

/-- The status in which a running promotion ends, unless its work goes on or failed. -/
def conclusion (mechanics : Mechanics) (stage? : Option Stage) (p : Promotion) :
    Option PromotionStatus :=
  match stage? with
  | none => some (.errored ("Stage " ++ p.stageKey.display ++ " not found"))
  | some stage =>
    match mechanics stage p with
    | .status status => if status.phase.isTerminal then some status else none
    | .structural text => some (.failed (ReconcileError.promotingMessage p.key p.stageKey text))
    | .transient _ | .crash => none

theorem terminal_of_conclusion (h : conclusion mechanics stage? p = some status) :
    status.phase.isTerminal = true := by
  unfold conclusion at h
  split at h
  · cases h; rfl
  · split at h
    · split at h
      · next ht => cases h; exact ht
      · cases h
    · cases h; rfl
    · cases h
    · cases h

theorem Promotion.unended_of_running {p : Promotion} (h : p.phase = .running) :
    p.isTerminal = false := by
  simp [Promotion.isTerminal, h, Phase.isTerminal]

inductive Marked (s : Store) (p : Promotion) : Promotion → Store → Prop where
  | marked (pending : p.phase = .pending)
      (write : s.updateStatus p.key p.metadata.version (.ofPhase .running) = .ok (running, s')) :
      Marked s p running s'
  | kept (open_ : p.phase ≠ .pending) : Marked s p p s

theorem Marked.spec {s s' : Store} {p running : Promotion} (hm : Marked s p running s')
    (hk : s.promotion? p.key = some p) (ho : p.isTerminal = false) :
    s'.promotion? running.key = some running ∧ running.bare = p.bare ∧ running.phase = .running ∧
      s'.stages = s.stages := by
  cases hm with
  | marked hp hw =>
    obtain ⟨old, hold, -, rfl, promotions, stages, -⟩ := Store.updateStatus_ok hw
    obtain rfl : p = old := by rw [hk] at hold; exact Option.some.inj hold
    exact ⟨by rw [Store.promotion?_insert promotions]; exact if_pos rfl, rfl, rfl, stages⟩
  | kept hp =>
    refine ⟨hk, rfl, ?_, rfl⟩
    unfold Promotion.isTerminal at ho
    cases hph : p.phase <;> simp_all [Phase.isTerminal]

inductive Concluded (mechanics : Mechanics) (s : Store) (p : Promotion) :
    Except ReconcileError Outcome → Store → Prop where
  | ended (end_ : conclusion mechanics (s.stage? p.stageKey) p = some status)
      (write : s.updateStatus p.key p.metadata.version status = .ok (p', s')) :
      Concluded mechanics s p (.ok .done) s'
  | unfinished (open_ : conclusion mechanics (s.stage? p.stageKey) p = none)
      (again : outcome ≠ .ok .done) : Concluded mechanics s p outcome s

section
variable {s s' : Store} {p running : Promotion} {outcome : Except ReconcileError Outcome}

theorem Marked.lawful (hm : Marked s p running s') (hc : s.Chronicle)
    (hk : s.promotion? p.key = some p) (ho : p.isTerminal = false) :
    s' = s ∨ Store.Lawful s s' := by
  cases hm with
  | marked hp hw =>
    exact .inr (hc.updateStatus (fun q hq => by rw [hk] at hq; cases hq; exact ho) hw)
  | kept hp => exact .inl rfl

theorem Marked.others (hm : Marked s p running s') (hc : s.Chronicle) {j : PromotionKey}
    (hj : j ≠ p.key) : s'.promotion? j = s.promotion? j := by
  cases hm with
  | marked hp hw => rw [(hc.updateStatus_spec hw).2.2.2, if_neg hj]
  | kept hp => rfl

theorem Concluded.lawful (hd : Concluded mechanics s running outcome s') (hc : s.Chronicle)
    (hk : s.promotion? running.key = some running) (ho : running.isTerminal = false) :
    s' = s ∨ Store.Lawful s s' := by
  cases hd with
  | ended hend hw =>
    exact .inr (hc.updateStatus (fun q hq => by rw [hk] at hq; cases hq; exact ho) hw)
  | unfinished hopen hagain => exact .inl rfl

theorem Concluded.others (hd : Concluded mechanics s running outcome s') (hc : s.Chronicle)
    {j : PromotionKey} (hj : j ≠ running.key) : s'.promotion? j = s.promotion? j := by
  cases hd with
  | ended hend hw => rw [(hc.updateStatus_spec hw).2.2.2, if_neg hj]
  | unfinished hopen hagain => rfl

theorem Concluded.hasEnded (hd : Concluded mechanics s running outcome s') (hc : s.Chronicle)
    (done : outcome = .ok .done) : s'.hasEnded running.key = true := by
  cases hd with
  | ended hend hw =>
    obtain ⟨-, hstatus, -, hs⟩ := hc.updateStatus_spec hw
    have hstored := hs running.key
    rw [if_pos rfl] at hstored
    rw [Store.hasEnded_of_stored hstored, Promotion.isTerminal, Promotion.phase, hstatus]
    exact terminal_of_conclusion hend
  | unfinished hopen hagain => exact absurd done hagain

theorem Concluded.bare (hd : Concluded mechanics s running outcome s') (hc : s.Chronicle)
    (hk : s.promotion? running.key = some running) {q : Promotion}
    (hq : s'.promotion? running.key = some q) : q.bare = running.bare := by
  cases hd with
  | ended hend hw =>
    obtain ⟨⟨old, hold, hbare⟩, -, -, hs⟩ := hc.updateStatus_spec hw
    rw [hs, if_pos rfl] at hq
    rw [hk] at hold
    cases hq
    cases hold
    exact hbare
  | unfinished hopen hagain =>
    rw [hk] at hq
    cases hq
    rfl

end

inductive Tried (mechanics : Mechanics) (key : PromotionKey) (w : World) :
    Except ReconcileError Outcome → World → Prop where
  | ended (past : w.store.hasEnded key = true) (counters : Counters) :
      Tried mechanics key w (.ok .done) { w with counters }
  | busy (p : Promotion) (stored : w.store.promotion? key = some p) (unended : p.isTerminal = false)
      (other : PromotionKey)
      (claim : (w.gates.claim p.stageKey (.ofPromotion p)).1 = .activeElsewhere other)
      (counters : Counters) (log : List LogRecord) :
      Tried mechanics key w (.ok .done)
        { w with gates := (w.gates.claim p.stageKey (.ofPromotion p)).2, counters, log }
  | behind (p : Promotion) (stored : w.store.promotion? key = some p)
      (unended : p.isTerminal = false) (head : PromotionKey)
      (claim : (w.gates.claim p.stageKey (.ofPromotion p)).1 = .notNext head)
      (counters : Counters) (log : List LogRecord) :
      Tried mechanics key w (.ok .done)
        ((World.enqueueNext p.stageKey).run
          { w with gates := (w.gates.claim p.stageKey (.ofPromotion p)).2, counters, log }).2
  | ran (p : Promotion) (stored : w.store.promotion? key = some p) (unended : p.isTerminal = false)
      (claim : (w.gates.claim p.stageKey (.ofPromotion p)).1 = .activated)
      (running : Promotion) (s s' : Store) (marked : Marked w.store p running s)
      (concluded : Concluded mechanics s running outcome s')
      (counters : Counters) (log : List LogRecord) :
      Tried mechanics key w outcome
        { w with
          gates := (w.gates.claim p.stageKey (.ofPromotion p)).2, store := s', counters, log }

namespace World

variable {w : World} {key : PromotionKey} {p new : Promotion} {s' : Store} {mechanics : Mechanics}

theorem writeStatus_quiet (h : w.Quiet) {status : PromotionStatus} {version : UInt64}
    (retries : Nat) (hs : w.store.updateStatus p.key version status = .ok (new, s')) :
    (writeStatus p status retries version).run.run w =
      (.ok (some new), { w with store := s', log := .phaseTransition p new :: w.log }) := by
  unfold writeStatus
  simp only [attempt_bind, attempt_lift, updateStatus_quiet h hs]
  rfl

theorem setStatus_quiet (h : w.Quiet) {status : PromotionStatus}
    (hs : w.store.updateStatus p.key p.metadata.version status = .ok (new, s')) :
    (setStatus p status).run.run w =
      (.ok (some new), { w with store := s', log := .phaseTransition p new :: w.log }) := by
  unfold setStatus
  simp only [attempt_bind, attempt_get]
  exact writeStatus_quiet h _ hs

theorem markRunning_quiet (h : w.Quiet) (key : PromotionKey) (stageKey : StageKey)
    (hk : w.store.promotion? p.key = some p) :
    ∃ running s' counters log, Marked w.store p running s' ∧
      (markRunning key stageKey p).run.run w =
        (.ok (some running), { w with store := s', counters, log }) := by
  unfold markRunning
  by_cases hp : p.phase = .pending
  · obtain ⟨running, s', hs⟩ := Store.updateStatus_current hk (.ofPhase .running)
    have hset := setStatus_quiet (w := { w with
      counters := { w.counters with activations := w.counters.activations + 1 }
      log := .decision .promotionActivated key stageKey :: w.log }) h hs
    simp only [if_pos hp, attempt_bind, attempt_lift, run_count, run_record]
    exact ⟨running, s', _, _, .marked hp hs, hset⟩
  · rw [if_neg hp]
    exact ⟨p, w.store, w.counters, w.log, .kept hp, rfl⟩

theorem advance_quiet (h : w.Quiet) (hk : w.store.promotion? p.key = some p)
    (ho : p.isTerminal = false) : ∃ running s' counters log, Marked w.store p running s' ∧
      match s'.stage? p.stageKey with
      | some stage => (advance p.key p.stageKey).run.run w =
          (.ok (some ⟨p.key, p.stageKey, stage, running⟩), { w with store := s', counters, log })
      | none => ∃ new s'' log,
          s'.updateStatus running.key running.metadata.version
            (.errored ("Stage " ++ p.stageKey.display ++ " not found")) = .ok (new, s'') ∧
          (advance p.key p.stageKey).run.run w =
            (.ok none, { w with store := s'', counters, log }) := by
  obtain ⟨running, s', counters, log, hm, hmark⟩ := markRunning_quiet h p.key p.stageKey hk
  obtain ⟨hstored, -, hphase, -⟩ := hm.spec hk ho
  have hrun := Promotion.unended_of_running hphase
  have hu : ({ w with store := s', counters, log } : World).Quiet := h
  refine ⟨running, s', counters, log, hm, ?_⟩
  have hadvance : (advance p.key p.stageKey).run.run w =
      ((do
        match s'.stage? p.stageKey with
        | none =>
          let _ ← setStatus running (.errored ("Stage " ++ p.stageKey.display ++ " not found"))
          return none
        | some stage => return some ⟨p.key, p.stageKey, stage, running⟩ :
          Attempt (Option Task)).run.run { w with store := s', counters, log }) := by
    unfold advance
    simp only [attempt_bind, attempt_lift, readPromotion_quiet h, hk, Option.filter_some, ho,
      Bool.not_false, if_true, hmark, hrun, Bool.false_eq_true, if_false, readStage_quiet hu]
    cases s'.stage? p.stageKey <;> rfl
  cases hst : s'.stage? p.stageKey with
  | some stage => rw [hadvance, hst]; rfl
  | none =>
    obtain ⟨new, s'', hw⟩ := Store.updateStatus_current hstored
      (.errored ("Stage " ++ p.stageKey.display ++ " not found"))
    have hset := setStatus_quiet hu hw
    refine ⟨new, s'', .phaseTransition running new :: log, hw, ?_⟩
    rw [hadvance, hst]
    simp only [attempt_bind, hset]
    rfl

theorem finish_of_conclusion {status : PromotionStatus}
    (h : conclusion mechanics (some stage) p = some status) :
    finish ⟨p.key, p.stageKey, stage, p⟩ (mechanics stage p) = do
      let _ ← setStatus p status
      return .done := by
  unfold finish
  unfold conclusion at h
  cases ha : mechanics stage p with
  | status answer =>
    by_cases ht : answer.phase.isTerminal = true
    · simp only [ha, if_pos ht, Option.some.injEq] at h
      subst h
      simp only [if_pos ht]
    · simp [ha, ht] at h
  | structural text =>
    simp only [ha, Option.some.injEq] at h
    simp only [h]
  | transient text => simp [ha] at h
  | crash => simp [ha] at h

theorem finish_of_open (h : conclusion mechanics (some stage) p = none) (w : World) :
    ∃ outcome, outcome ≠ .ok .done ∧
      (finish ⟨p.key, p.stageKey, stage, p⟩ (mechanics stage p)).run.run w = (outcome, w) := by
  unfold finish
  unfold conclusion at h
  cases ha : mechanics stage p with
  | status answer =>
    by_cases ht : answer.phase.isTerminal = true
    · simp [ha, ht] at h
    · simp only [if_neg ht]
      exact ⟨_, by simp, rfl⟩
  | structural text => simp [ha] at h
  | transient text => exact ⟨_, by simp, rfl⟩
  | crash => exact ⟨_, by simp, rfl⟩

theorem finish_quiet (h : w.Quiet) (mechanics : Mechanics) (hk : w.store.promotion? p.key = some p)
    (hs : w.store.stage? p.stageKey = some stage) : ∃ outcome s' log,
      Concluded mechanics w.store p outcome s' ∧
      (finish ⟨p.key, p.stageKey, stage, p⟩ (mechanics stage p)).run.run w =
        (outcome, { w with store := s', log }) := by
  cases hc : conclusion mechanics (some stage) p with
  | some status =>
    obtain ⟨new, s', hw⟩ := Store.updateStatus_current hk status
    refine ⟨.ok .done, s', .phaseTransition p new :: w.log, .ended (hs ▸ hc) hw, ?_⟩
    rw [finish_of_conclusion hc, attempt_bind, setStatus_quiet h hw]
    rfl
  | none =>
    obtain ⟨outcome, hne, hrun⟩ := finish_of_open hc w
    exact ⟨outcome, w.store, w.log, .unfinished (hs ▸ hc) hne, hrun⟩

theorem claimStage_run (p : Promotion) (w : World) :
    (claimStage p).run w =
      match (w.gates.claim p.stageKey (.ofPromotion p)).1 with
      | .activated => (true, { w with gates := (w.gates.claim p.stageKey (.ofPromotion p)).2 })
      | .activeElsewhere _ => (false, { w with
          gates := (w.gates.claim p.stageKey (.ofPromotion p)).2
          counters := { w.counters with deferrals := w.counters.deferrals + 1 }
          log := .decision .promotionDeferred p.key p.stageKey :: w.log })
      | .notNext _ => (false, ((enqueueNext p.stageKey).run { w with
          gates := (w.gates.claim p.stageKey (.ofPromotion p)).2
          counters := { w.counters with deferrals := w.counters.deferrals + 1 }
          log := .decision .promotionDeferred p.key p.stageKey :: w.log }).2) := by
  unfold claimStage
  rw [run_bind, run_atGates]
  cases (w.gates.claim p.stageKey (.ofPromotion p)).1 <;> rfl

theorem reconcile_quiet (h : w.Quiet) (hkey : ∀ p, w.store.promotion? key = some p → p.key = key)
    (mechanics : Mechanics) : Tried mechanics key w ((reconcile mechanics key).run.run w).1
      ((reconcile mechanics key).run.run w).2 := by
  let counted : World :=
    { w with counters := { w.counters with reconciles := w.counters.reconciles + 1 } }
  have hcounted : counted.Quiet := h
  have hread := readPromotion_quiet hcounted key
  unfold reconcile prepare
  simp only [attempt_bind, attempt_lift, run_count, hread, counted]
  cases hp : w.store.promotion? key with
  | none => exact .ended (by simp [Store.hasEnded, hp]) _
  | some p =>
    by_cases ht : p.isTerminal = true
    · simp only [ht]
      exact .ended (by simp [Store.hasEnded, hp, ht]) _
    · obtain rfl := hkey p hp
      have ho : p.isTerminal = false := by simpa using ht
      unfold proceed
      simp only [ho, Bool.false_eq_true, if_false, attempt_bind, attempt_lift, claimStage_run]
      cases hc : (w.gates.claim p.stageKey (.ofPromotion p)).1 with
      | activeElsewhere other => exact .busy p hp ho other hc _ _
      | notNext head => exact .behind p hp ho head hc _ _
      | activated =>
        let claimed : World := { counted with
          gates := (w.gates.claim p.stageKey (.ofPromotion p)).2 }
        have hclaimed : claimed.Quiet := h
        obtain ⟨running, s, counters, log, hm, hrun⟩ := advance_quiet hclaimed hp ho
        obtain ⟨hstored, hbare, -, -⟩ := hm.spec hp ho
        have hkeys := Promotion.key_of_bare hbare
        have hstage := Promotion.stageKey_of_bare hbare
        simp only [claimed, counted] at hrun
        cases hs : s.stage? p.stageKey with
        | none =>
          obtain ⟨new, s', log, hw, hrun⟩ := hs ▸ hrun
          have hend : conclusion mechanics (s.stage? running.stageKey) running =
              some (.errored ("Stage " ++ p.stageKey.display ++ " not found")) := by
            rw [hstage, hs, conclusion, hstage]
          simp only [if_true, hrun]
          exact .ran p hp ho hc running s s' hm (.ended hend hw) _ _
        | some stage =>
          have hrun := hs ▸ hrun
          have hmarked : ({ claimed with store := s, counters, log } : World).Quiet := h
          obtain ⟨outcome, s', log', hconcl, hfinish⟩ :=
            finish_quiet hmarked mechanics hstored (hstage ▸ hs)
          rw [hkeys, hstage] at hfinish
          simp only [claimed, counted] at hfinish
          simp only [if_true, hrun, hfinish]
          exact .ran p hp ho hc running s s' hm hconcl _ _

end World

end StageGate
