import StageGate.Promoter.Dispatch
import StageGate.Promoter.Mechanics

/-!
# Reconciling a promotion

One attempt takes a promotion as far as it can: it claims the stage, marks the promotion as running,
has the mechanics do their work and writes what came of it. An attempt that fails is to be repeated;
what it did before it failed stays done.
-/

namespace StageGate

/-- Why an attempt has to be repeated. -/
inductive ReconcileError where
  | readPromotion (promotion : PromotionKey) (cause : StoreError)
  | readStage (stage : StageKey) (cause : StoreError)
  | statusUpdate (promotion : PromotionKey) (cause : StoreError)
  | transient (promotion : PromotionKey) (stage : StageKey) (text : String)
  | crashed (promotion : PromotionKey)
deriving DecidableEq, Repr

namespace ReconcileError

def promotingMessage (promotion : PromotionKey) (stage : StageKey) (text : String) : String :=
  "error promoting Promotion " ++ promotion.display ++ " into Stage " ++ stage.display ++
    ": " ++ text

def message : ReconcileError → String
  | .readPromotion p cause => "error reading Promotion " ++ p.display ++ ": " ++ cause.message
  | .readStage s cause => "error reading Stage " ++ s.display ++ ": " ++ cause.message
  | .statusUpdate p cause =>
    "error updating status of Promotion " ++ p.display ++ ": " ++ cause.message
  | .transient p s text => promotingMessage p s text
  | .crashed p => "reconciling Promotion " ++ p.display ++ " broke off"

end ReconcileError

inductive Outcome where
  | done
  | requeueAfter (delay : Duration)
deriving DecidableEq, Repr

/-- A promotion that holds its stage and is marked as running. -/
structure Task where
  key : PromotionKey
  stageKey : StageKey
  stage : Stage
  promotion : Promotion
deriving DecidableEq

/-- A step that may fail; the world keeps what was done before. -/
abbrev Attempt := ExceptT ReconcileError Action

namespace World

-- ---------------------------------------------------------------------------
-- Writing a status
-- ---------------------------------------------------------------------------

/-- Writes a status over `version`, and over the current version again after a conflict, at most
`retries` times. Where another writer has ended or deleted the promotion that stands, and the stage
is freed. The result is the promotion as it then is, if it is. -/
def writeStatus (p : Promotion) (status : PromotionStatus) :
    (retries : Nat) → (version : UInt64) → Attempt (Option Promotion)
  | retries, version => do
    match ← (updateStatus p.key version status : Action _) with
    | .ok updated =>
      record (.phaseTransition p updated)
      return some updated
    | .error cause =>
      if cause.isNotFound then
        release p.stageKey p.key
        return none
      match retries with
      | 0 => throw (.statusUpdate p.key cause)
      | retries + 1 =>
        if !cause.isConflict then throw (.statusUpdate p.key cause)
        match ← (readPromotion p.key : Action _) with
        | .error cause => throw (.statusUpdate p.key cause)
        | .ok none =>
          release p.stageKey p.key
          return none
        | .ok (some latest) =>
          if latest.isTerminal then
            release p.stageKey p.key
            return some latest
          writeStatus p status retries latest.metadata.version

def setStatus (p : Promotion) (status : PromotionStatus) : Attempt (Option Promotion) := do
  let settings := (← get).settings
  writeStatus p status (settings.statusUpdateRetries.toNat - 1) p.metadata.version

-- ---------------------------------------------------------------------------
-- One attempt
-- ---------------------------------------------------------------------------

/-- Claims the stage for a promotion. Where another one stands first at an idle stage it is sent to
the work queue, since nothing else would wake it. -/
def claimStage (p : Promotion) : Action Bool := do
  match ← atGates (·.claim p.stageKey (.ofPromotion p)) with
  | .activated => return true
  | .activeElsewhere _ =>
    count fun c => { c with deferrals := c.deferrals + 1 }
    record (.decision .promotionDeferred p.key p.stageKey)
    return false
  | .notNext _ =>
    count fun c => { c with deferrals := c.deferrals + 1 }
    record (.decision .promotionDeferred p.key p.stageKey)
    let _ ← enqueueNext p.stageKey
    return false

def markRunning (key : PromotionKey) (stageKey : StageKey) (p : Promotion) :
    Attempt (Option Promotion) := do
  if p.phase = .pending then
    count fun c => { c with activations := c.activations + 1 }
    record (.decision .promotionActivated key stageKey)
    setStatus p (.ofPhase .running)
  else return some p

/-- Leads a promotion that has claimed a stage up to the mechanics. It is read again, in case it
ended or was deleted before the claim. -/
def advance (key : PromotionKey) (stageKey : StageKey) : Attempt (Option Task) := do
  match ← (readPromotion key : Action _) with
  | .error cause => throw (.readPromotion key cause)
  | .ok latest? =>
    match latest?.filter (!·.isTerminal) with
    | none =>
      release stageKey key
      return none
    | some latest =>
      match ← markRunning key stageKey latest with
      | none => return none
      | some running =>
        if running.isTerminal then return none
        match ← (readStage stageKey : Action _) with
        | .error cause => throw (.readStage stageKey cause)
        | .ok none =>
          let _ ← setStatus running (.errored ("Stage " ++ stageKey.display ++ " not found"))
          return none
        | .ok (some stage) => return some { key, stageKey, stage, promotion := running }

def proceed (key : PromotionKey) (p : Promotion) : Attempt (Option Task) := do
  if ← claimStage p then advance key p.stageKey else return none

/-- Leads a promotion up to the mechanics, if there is work for them. -/
def prepare (key : PromotionKey) : Attempt (Option Task) := do
  count fun c => { c with reconciles := c.reconciles + 1 }
  match ← (readPromotion key : Action _) with
  | .error cause => throw (.readPromotion key cause)
  | .ok none => return none
  | .ok (some p) => if p.isTerminal then return none else proceed key p

def finish (task : Task) (answer : Answer) : Attempt Outcome := do
  match answer with
  | .status status =>
    if status.phase.isTerminal then
      let _ ← setStatus task.promotion status
      return .done
    return .requeueAfter (← get).settings.requeueInterval
  | .structural text =>
    let message := ReconcileError.promotingMessage task.key task.stageKey text
    let _ ← setStatus task.promotion (.failed message)
    return .done
  | .transient text => throw (.transient task.key task.stageKey text)
  | .crash => throw (.crashed task.key)

def reconcile (mechanics : Mechanics) (key : PromotionKey) : Attempt Outcome := do
  match ← prepare key with
  | none => return .done
  | some task => finish task (mechanics task.stage task.promotion)

end World

end StageGate
