import StageGate.Proofs.Promoter.Finality
import StageGate.Proofs.Promoter.LateClaim

/-!
# Two halves of an attempt

An attempt takes a promotion up and then carries it out. In the first half it claims the stage and
marks the promotion as running; in the second one it writes how the promotion ends. Others write to
the store meanwhile, so what is carried out is what the store held at one moment of the first half.
Main statements: `reconcile_eq`, `setStatus_directed`, where a status goes that is written, and
`takeUp_tookUp`, what is known of what was taken up.
-/

namespace StageGate

namespace World

-- ---------------------------------------------------------------------------
-- Two halves
-- ---------------------------------------------------------------------------

/-- Looks again at a promotion that has claimed its stage, and marks it as running. -/
def confirm (key : PromotionKey) (stageKey : StageKey) : Attempt (Option Promotion) := do
  match ← (readPromotion key : Action _) with
  | .error cause => throw (.readPromotion key cause)
  | .ok latest? =>
    match latest?.filter (!·.isTerminal) with
    | none =>
      release stageKey key
      return none
    | some latest => return (← markRunning key stageKey latest).filter (!·.isTerminal)

/-- The first half of an attempt. What it takes up it hands on with the stage that was claimed. -/
def takeUp (key : PromotionKey) : Attempt (Option (StageKey × Promotion)) := do
  match ← (look key : Action _) with
  | .error cause => throw (.readPromotion key cause)
  | .ok first? =>
    match first?.filter (!·.isTerminal) with
    | none => return none
    | some first =>
      if ← claimStage first then
        return (← confirm key first.stageKey).map (first.stageKey, ·)
      else return none

def equip (key : PromotionKey) (stageKey : StageKey) (p : Promotion) : Attempt (Option Task) := do
  match ← (readStage stageKey : Action _) with
  | .error cause => throw (.readStage stageKey cause)
  | .ok none =>
    let _ ← setStatus p (.errored ("Stage " ++ stageKey.display ++ " not found"))
    return none
  | .ok (some stage) => return some { key, stageKey, stage, promotion := p }

def carryOut (mechanics : Mechanics) (key : PromotionKey) (stageKey : StageKey) (p : Promotion) :
    Attempt Outcome := do
  match ← equip key stageKey p with
  | none => return .done
  | some task => finish task (mechanics task.stage task.promotion)

variable {w u v : World} {key : PromotionKey} {stageKey : StageKey} {p q : Promotion}

theorem attempt_ext {x y : Attempt α} (h : ∀ w, x.run.run w = y.run.run w) : x = y :=
  ExceptT.ext (StateT.ext h)

theorem filter_ended (h : p.isTerminal = true) : (some p).filter (!·.isTerminal) = none := by
  simp [h]

theorem filter_unended (h : p.isTerminal = false) : (some p).filter (!·.isTerminal) = some p := by
  simp [h]

theorem advance_eq (key : PromotionKey) (stageKey : StageKey) : advance key stageKey = (do
    match ← confirm key stageKey with
    | none => return none
    | some running => equip key stageKey running : Attempt (Option Task)) := by
  refine attempt_ext fun w => ?_
  unfold advance confirm equip
  simp only [attempt_bind, attempt_lift]
  rcases (readPromotion key).run w with ⟨e | latest?, u⟩
  · rfl
  · cases hl : latest?.filter (!·.isTerminal) with
    | none => simp only [hl, attempt_bind, attempt_lift]; rfl
    | some latest =>
      simp only [hl, attempt_bind]
      rcases (markRunning key stageKey latest).run.run u with ⟨e | _ | running, v⟩
      · rfl
      · rfl
      · cases hr : running.isTerminal with
        | true =>
          simp only [filter_ended hr, hr, if_true]
          rfl
        | false =>
          simp only [filter_unended hr, hr, Bool.false_eq_true, if_false, attempt_bind]
          rfl

theorem prepare_eq (key : PromotionKey) : prepare key = (do
    match ← takeUp key with
    | none => return none
    | some (stageKey, p) => equip key stageKey p : Attempt (Option Task)) := by
  refine attempt_ext fun w => ?_
  unfold prepare takeUp look proceed
  simp only [attempt_bind, attempt_lift, run_bind, run_count, advance_eq]
  rcases (readPromotion key).run _ with ⟨e | _ | first, u⟩
  · rfl
  · rfl
  · cases hf : first.isTerminal with
    | true =>
      simp only [filter_ended hf, hf, if_true]
      rfl
    | false =>
      simp only [filter_unended hf, hf, Bool.false_eq_true, if_false, attempt_bind, attempt_lift]
      rcases (claimStage first).run u with ⟨_ | _, v⟩
      · rfl
      · simp only [if_true, attempt_bind]
        rcases (confirm key first.stageKey).run.run v with ⟨e | _ | running, x⟩ <;> rfl

theorem reconcile_eq (mechanics : Mechanics) (key : PromotionKey) : reconcile mechanics key = (do
    match ← takeUp key with
    | none => return .done
    | some (stageKey, p) => carryOut mechanics key stageKey p : Attempt Outcome) := by
  unfold reconcile carryOut
  rw [prepare_eq, bind_assoc]
  congr
  funext taken
  rcases taken with _ | ⟨stageKey, p⟩ <;> rfl

-- ---------------------------------------------------------------------------
-- Where a status goes
-- ---------------------------------------------------------------------------

/-- The attempts to write a status of a promotion over a version. -/
structure Directed (w : World) (p : Promotion) (status : PromotionStatus) (version : UInt64)
    (ts : List StatusTry) (answer : Except ReconcileError (Option Promotion)) (u : World) :
    Prop where
  aimed : ∀ t ∈ ts, ∃ (v : World) (version : UInt64),
    t = v.statusTry p.key version status ∧ w.store.Written v.store
  first : ts.head? = some (w.statusTry p.key version status)
  onward : w.Onward 1 u
  sighted : w.store.Current → ∀ q, answer = .ok (some q) → q.isTerminal = false →
    ∃ s, w.Sighted 1 p.key q s u

namespace Directed

variable {version : UInt64} {status : PromotionStatus} {us : List StatusTry}
  {answer : Except ReconcileError (Option Promotion)} {cause : StoreError}

theorem once (onward : w.Onward 1 u)
    (sighted : w.store.Current → ∀ q, answer = .ok (some q) → q.isTerminal = false →
      ∃ s, w.Sighted 1 p.key q s u) :
    w.Directed p status version [w.statusTry p.key version status] answer u where
  aimed _ ht := ⟨w, version, List.mem_singleton.mp ht, .refl⟩
  first := rfl
  onward := onward
  sighted := sighted

theorem succeeded (log : List LogRecord)
    (written : ((updateStatus p.key version status).run w).1 = .ok q) :
    w.Directed p status version [w.statusTry p.key version status] (.ok (some q))
      { ((updateStatus p.key version status).run w).2 with log } := by
  have honward := onward_updateStatus w p.key version status
  rw [if_pos (succeeded_iff.mpr ⟨q, written⟩)] at honward
  refine once honward fun hcurrent q' hq _ => ?_
  obtain ⟨s, hs⟩ := sighted_updateStatus hcurrent.keyed written
  obtain rfl := Option.some.inj (Except.ok.inj hq)
  exact ⟨s, hs.before, hs.stored, hs.after, hs.follows⟩

theorem gaveUp (failed : ((updateStatus p.key version status).run w).1 = .error cause)
    (h : ((updateStatus p.key version status).run w).2.GaveUp p answer u) :
    w.Directed p status version [w.statusTry p.key version status] answer u := by
  have honward := (onward_failed (not_succeeded failed)).trans h.onward
  refine once (honward.le (Nat.zero_le 1)) fun _ q hq hopen => ?_
  rw [h.ended q hq] at hopen
  cases hopen

theorem again {latest : Promotion}
    (refused : (updateStatus p.key version status).run w = (.error cause, v))
    (h : ((readPromotion p.key).run v).2.Directed p status latest.metadata.version us answer u) :
    w.Directed p status version (w.statusTry p.key version status :: us) answer u := by
  obtain ⟨hcause, rfl⟩ := Prod.ext_iff.mp refused
  have hwritten := (Steady.attempting.updateStatus p.key version status w).written.trans
    (Steady.readPromotion p.key _).written
  have honward := (onward_failed (not_succeeded hcause)).trans
    ((Passive.readPromotion p.key).onward _)
  constructor
  case aimed =>
    intro t ht
    rcases List.mem_cons.mp ht with rfl | hlater
    · exact ⟨w, version, rfl, .refl⟩
    · obtain ⟨v, version, hv, hsince⟩ := h.aimed t hlater
      exact ⟨v, version, hv, hwritten.trans hsince⟩
  case first => rfl
  case onward => exact honward.trans h.onward
  case sighted =>
    intro hcurrent q hq hopen
    obtain ⟨s, hs⟩ := h.sighted (hcurrent.written hwritten) q hq hopen
    exact ⟨s, hs.since hwritten honward⟩

end Directed

theorem setStatus_directed (p : Promotion) (status : PromotionStatus) (w : World) :
    Tries (setStatus p status).run w (w.Directed p status p.metadata.version) := by
  unfold setStatus
  exact Passive.get.lift_bind (writeStatus_rule p status
    (Q := fun version _ w => w.Directed p status version) .succeeded .gaveUp
    (fun refused _ _ h => h.again refused) _ _ _)

-- ---------------------------------------------------------------------------
-- What is taken up
-- ---------------------------------------------------------------------------

/-- What is known once an attempt has taken up a promotion, or has not. -/
structure TookUp (w : World) (key : PromotionKey) (ts : List StatusTry)
    (answer : Except ReconcileError (Option Promotion)) (u : World) : Prop where
  running : ∀ t ∈ ts, t.status = .ofPhase .running
  onward : w.Onward 1 u
  sighted : w.store.Current → ∀ p, answer = .ok (some p) → p.isTerminal = false ∧
    ∃ s, w.Sighted 1 key p s u

namespace TookUp

variable {ts : List StatusTry} {answer : Except ReconcileError (Option Promotion)}

theorem since (h : v.TookUp key ts answer u) (written : w.store.Written v.store)
    (onward : w.Onward 0 v) : w.TookUp key ts answer u where
  running := h.running
  onward := Nat.zero_add 1 ▸ onward.trans h.onward
  sighted hcurrent p hp := by
    obtain ⟨hopen, s, hs⟩ := h.sighted (hcurrent.written written) p hp
    exact ⟨hopen, s, hs.since written onward⟩

theorem nothing (onward : w.Onward 0 u) (none : ∀ p, answer ≠ .ok (some p)) :
    w.TookUp key [] answer u where
  running := by simp
  onward := onward.le (Nat.zero_le 1)
  sighted _ p hp := absurd hp (none p)

end TookUp

theorem markRunning_tookUp {latest : Promotion} (stageKey : StageKey)
    (read : ((readPromotion key).run w).1 = .ok (some latest)) :
    Tries (markRunning key stageKey latest).run ((readPromotion key).run w).2 fun ts answer u =>
      w.TookUp key ts (answer.map (·.filter (!·.isTerminal))) u := by
  have hwritten := (Steady.readPromotion key w).written
  have honward := (Passive.readPromotion key).onward w
  have hseen := sighted_readPromotion read
  have kept {p : Promotion} {answer : Except ReconcileError (Option Promotion)}
      (h : answer.map (·.filter (!·.isTerminal)) = .ok (some p)) :
      answer = .ok (some p) ∧ p.isTerminal = false := by
    rcases answer with e | q?
    · cases h
    · obtain ⟨rfl, hopen⟩ := Option.filter_eq_some_iff.mp (Except.ok.inj h)
      exact ⟨rfl, by simpa using hopen⟩
  unfold markRunning
  split
  · refine (Passive.count _).lift_bind ((Passive.record _).lift_bind ?_)
    have hmarked := honward.trans (onward_of_same rfl rfl)
    refine (setStatus_directed latest _ _).mono fun ts answer u h => ?_
    refine ⟨fun t ht => ?_, hmarked.trans h.onward, fun hcurrent p hp => ?_⟩
    · obtain ⟨v, version, rfl, -⟩ := h.aimed t ht
      rfl
    · obtain ⟨hp, hopen⟩ := kept hp
      obtain ⟨s, hs⟩ := h.sighted (hcurrent.written hwritten) p hp hopen
      have hkey : latest.key = key :=
        (hcurrent.written hseen.before).keyed key latest hseen.stored
      exact ⟨hopen, s, hkey ▸ hs.since hwritten hmarked⟩
  · refine (Passive.pure _).tries _ ⟨by simp, ?_, fun _ p hp => ?_⟩
    · exact honward.le (Nat.zero_le 1)
    · obtain ⟨hp, hopen⟩ := kept hp
      cases hp
      exact ⟨hopen, _, hseen.le (Nat.zero_le 1)⟩

theorem confirm_tookUp (key : PromotionKey) (stageKey : StageKey) (w : World) :
    Tries (confirm key stageKey).run w (w.TookUp key) := by
  have honward := (Passive.readPromotion key).onward w
  unfold confirm
  refine (Passive.readPromotion key).lift_bind ?_
  rcases hanswer : ((readPromotion key).run w).1 with cause | latest?
  · exact (Passive.pure _).tries _ (.nothing honward fun _ h => nomatch h)
  · simp only
    cases hlatest : latest?.filter (!·.isTerminal) with
    | none =>
      refine (Passive.release _ _).lift_bind ((Passive.pure _).tries _ ?_)
      refine .nothing ?_ fun _ h => nomatch h
      exact honward.trans ((Passive.release _ _).onward _)
    | some latest =>
      obtain ⟨rfl, -⟩ := Option.filter_eq_some_iff.mp hlatest
      refine Tries.attempt_bind (markRunning_tookUp stageKey hanswer) (fun ts q? u h => ?_)
        fun ts e u h => h
      refine (Passive.pure _).tries u ?_
      rwa [List.append_nil]

theorem Passive.look (key : PromotionKey) : Passive (World.look key) := releasing.look key

theorem Steady.look (key : PromotionKey) : Steady (World.look key) := attempting.look key

/-- All that is taken up was seen after the first look. -/
theorem takeUp_tookUp (key : PromotionKey) (w : World) :
    Tries (takeUp key).run w fun ts answer u =>
      ((look key).run w).2.TookUp key ts (answer.map (·.map (·.2))) u := by
  unfold takeUp
  refine (Passive.look key).lift_bind ?_
  rcases hanswer : ((look key).run w).1 with cause | first?
  · exact (Passive.pure _).tries _ (.nothing (onward_of_same rfl rfl) fun _ h => nomatch h)
  · simp only
    cases first?.filter (!·.isTerminal) with
    | none =>
      exact (Passive.pure _).tries _ (.nothing (onward_of_same rfl rfl) fun _ h => nomatch h)
    | some first =>
      refine (Passive.claimStage first).lift_bind ?_
      have honward := (Passive.claimStage first).onward ((look key).run w).2
      have hwritten := (leads_claimStage first ((look key).run w).2).written
      split
      · refine Tries.attempt_bind (confirm_tookUp key first.stageKey _) (fun ts q? u h => ?_)
          fun ts e u h => ?_
        · refine (Passive.pure _).tries u ?_
          rw [List.append_nil]
          cases q? <;> exact h.since hwritten honward
        · exact h.since hwritten honward
      · exact (Passive.pure _).tries _ (.nothing honward fun _ h => nomatch h)

end World

end StageGate
