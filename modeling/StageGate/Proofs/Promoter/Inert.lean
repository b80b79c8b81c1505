import StageGate.Proofs.Promoter.Oldest
import StageGate.Proofs.Promoter.TakenUp

/-!
# Actions that activate nothing

An activation is counted and recorded where a promotion is marked as running and nowhere else, and
stages are given to promotions by admissions and claims only. `Unactivated` says what all the other
actions leave alone while others write to the store. Main statements: `Inert.onDelivery` and
`Inert.carryOut`, from the steps that the actions are made of.
-/

namespace StageGate

namespace World

variable {w u v : World} {key : PromotionKey} {p : Promotion} {stage : StageKey} {takes : Prop}
  {status : PromotionStatus} {version : UInt64} {ε : Type}

/-- Whose activations the log tells of; the latest one comes first. -/
def activated (w : World) : List PromotionKey := w.log.filterMap LogRecord.activated?

/-- Between two worlds nothing was activated, and stages were taken only if `takes` says so. -/
structure Unactivated (takes : Prop) (w u : World) : Prop where
  written : w.store.Written u.store
  activations : u.counters.activations = w.counters.activations
  activated : u.activated = w.activated
  holders : ¬ takes → ∀ stage k, u.gates.active? stage = some k → w.gates.active? stage = some k

namespace Unactivated

theorem trans (h : w.Unactivated takes v) (h' : v.Unactivated takes u) : w.Unactivated takes u where
  written := h.written.trans h'.written
  activations := h'.activations.trans h.activations
  activated := h'.activated.trans h.activated
  holders htakes stage k hk := h.holders htakes stage k (h'.holders htakes stage k hk)

theorem aside (written : w.store.Written u.store) (gates : u.gates = w.gates)
    (counters : u.counters = w.counters) (log : u.log = w.log) : w.Unactivated takes u where
  written := written
  activations := by rw [counters]
  activated := by rw [World.activated, log, World.activated]
  holders _ _ _ h := gates ▸ h

theorem regated (gates : Gates) : w.Unactivated True { w with gates } :=
  ⟨.refl, rfl, rfl, fun h => absurd trivial h⟩

end Unactivated

def Inert (takes : Prop) (x : Action α) : Prop := ∀ w : World, w.Unactivated takes (x.run w).2

namespace Inert

theorem composing : Composing fun _ => Inert takes :=
  .of_rel (fun _ => .aside .refl rfl rfl rfl) fun h h' => h.trans h'

theorem record {r : LogRecord} (h : r.activated? = none) : Inert takes (World.record r) := fun _ =>
  ⟨.refl, rfl, List.filterMap_cons_none h, fun _ _ _ => id⟩

theorem enqueueAfter (key : PromotionKey) (delay : Duration) :
    Inert takes (World.enqueueAfter key delay) := fun _ => .aside .refl rfl rfl rfl

theorem forget (key : PromotionKey) : Inert takes (World.forget key) :=
  fun _ => .aside .refl rfl rfl rfl

theorem isResponsibleFor (m : Metadata) : Inert takes (World.isResponsibleFor m) :=
  fun _ => .aside .refl rfl rfl rfl

theorem conclude (stage : StageKey) (key : PromotionKey) :
    Inert takes (World.atGates (·.conclude stage key)) := by
  intro w
  refine ⟨.refl, rfl, rfl, fun _ other k hk => ?_⟩
  rw [run_atGates, Gates.active?_conclude] at hk
  split at hk
  · cases hk
  · exact hk

theorem callStore {call : StoreCall} {target : Option PromotionKey}
    {act : Store → Except StoreError α × Store} (acts : ∀ s : Store, s.Written (act s).2) :
    Inert takes (World.callStore call target act) := by
  intro w
  refine .aside (Steady.callStore acts w).written ?_ ?_ ?_ <;> rw [callStore_run] <;>
    cases (w.disturbances.next call).outage <;> rfl

theorem seek (stage : StageKey)
    (looks : ∀ gs : Gates, Inert takes (gs.select World.revalidate stage)) :
    Inert takes (World.seek stage) := by
  intro w
  have hlooks := looks w.gates w
  rw [run_seek]
  exact ⟨hlooks.written, hlooks.activations, hlooks.activated, fun _ other k hk =>
    (Gates.active?_select World.revalidate w).symm.trans hk⟩

theorem attempting : Attempting fun _ => Inert takes where
  toComposing := composing
  record := record
  count h _ := ⟨.refl, h _, rfl, fun _ _ _ => id⟩
  enqueue _ _ := .aside .refl rfl rfl rfl
  enqueueRateLimited key w := by
    rw [run_enqueueRateLimited]
    exact .aside .refl rfl rfl rfl
  readPromotion _ := composing.readPromotion (fun _ => .aside .refl rfl rfl rfl)
    (callStore fun _ => .refl) fun _ => conclude _ _
  seek := seek
  conclude := conclude
  get _ := .aside .refl rfl rfl rfl
  readStage _ := callStore fun _ => .refl
  updateStatus key version status := callStore fun s => by
    split
    · next h => exact Store.written_updateStatus h
    · exact .refl

-- ---------------------------------------------------------------------------
-- Hearing of changes
-- ---------------------------------------------------------------------------

/-- An admission may give a stage to a promotion, but it does not activate it. -/
theorem onPromotionCreated (p : Promotion) : Inert True (World.onPromotionCreated p) :=
  attempting.onPromotionCreated (isResponsibleFor _) fun _ => .regated _

theorem handle (c : Change) : Inert True (World.handle c) := by
  have released (p : Promotion) : Inert True (do
      if ← World.isResponsibleFor p.metadata then World.release p.stageKey p.key) := by
    refine composing.bind (isResponsibleFor _) fun responsible => ?_
    split
    · exact attempting.release _ _
    · exact composing.pure _
  cases c with
  | promotionCreated p => exact onPromotionCreated p
  | promotionUpdated old new =>
    rcases old with _ | old <;> rcases new with _ | new
    · exact composing.pure _
    · exact composing.pure _
    · exact composing.pure _
    · show Inert True (World.onPromotionUpdated old new)
      unfold World.onPromotionUpdated
      split
      · exact released new
      · exact composing.pure _
  | promotionDeleted p => exact released p
  | applicationUpdated old new =>
    rcases old with _ | old <;> rcases new with _ | app
    · exact composing.pure _
    · exact composing.pure _
    · exact composing.pure _
    · exact attempting.onApplicationUpdated (callStore fun _ => .refl) isResponsibleFor

theorem recovering : Recovering fun _ _ x => Inert takes x.run :=
  attempting.recovering attempting.get

theorem initializeQueues : Inert True World.initializeQueues.run := by
  have list : Inert True World.listPromotions := callStore fun _ => .refl
  exact recovering.initializeQueues list fun p =>
    composing.bind (onPromotionCreated p) fun _ => composing.pure _

theorem resync : Inert True World.resync.run := by
  unfold World.resync
  refine composing.lift_bind attempting.get fun w => ?_
  refine composing.attempt_bind (recovering.forM recovering.releaseStale _) fun _ => ?_
  refine composing.attempt_bind initializeQueues fun _ => ?_
  refine composing.lift_bind attempting.get fun u => recovering.forM (fun stage => ?_) _
  exact composing.lift_bind (attempting.enqueueNext stage) fun _ => composing.pure _

theorem onDelivery (delivery : Delivery) : Inert True (World.onDelivery delivery) := by
  cases delivery with
  | change c => exact handle c
  | lagged missed =>
    exact composing.bind (record rfl) fun _ => composing.bind resync fun _ => composing.pure _

-- ---------------------------------------------------------------------------
-- Attempts
-- ---------------------------------------------------------------------------

theorem equip (key : PromotionKey) (stageKey : StageKey) (p : Promotion) :
    Inert takes (World.equip key stageKey p).run := by
  unfold World.equip
  refine composing.lift_bind (attempting.readStage _) fun stage? => ?_
  rcases stage? with e | _ | stage
  · exact composing.pure _
  · exact composing.attempt_bind (attempting.setStatus _ _) fun _ => composing.pure _
  · exact composing.pure _

theorem carryOut (mechanics : Mechanics) (key : PromotionKey) (stageKey : StageKey)
    (p : Promotion) : Inert takes (World.carryOut mechanics key stageKey p).run := by
  unfold World.carryOut
  refine composing.attempt_bind (equip _ _ _) fun task? => ?_
  rcases task? with _ | task
  · exact composing.pure _
  · exact attempting.finish task _

theorem onOutcome (key : PromotionKey) (outcome : Except ReconcileError Outcome) :
    Inert takes (World.onOutcome key outcome) := by
  unfold World.onOutcome
  rcases outcome with e | _ | delay
  · refine composing.bind (attempting.count fun _ => rfl) fun _ => ?_
    have again : Inert takes (World.enqueueRateLimited key) := attempting.enqueueRateLimited key
    cases e with
    | crashed k => exact again
    | _ =>
      refine composing.bind attempting.get fun w => composing.bind (record rfl) fun _ => ?_
      exact again
  · exact forget key
  · exact composing.bind (forget key) fun _ => enqueueAfter key delay

end Inert

/-- A claim may give the stage to a promotion; what follows it does not. -/
theorem claimStage_unactivated (p : Promotion) (w : World) :
    (w.claimed p).Unactivated takes ((claimStage p).run w).2 := by
  rw [claimStage_eq]
  exact Inert.attempting.heed p _ (w.claimed p)

end World

end StageGate
