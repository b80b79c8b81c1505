import StageGate.Json.Basic
import StageGate.Resource.Promotion

/-!
# Events and log records

Every decision has a named event, and a log record says which one was taken about what. A record is
a value; its level and its fields are worded here and nowhere else.
-/

namespace StageGate

inductive Event where
  | controllerStarted
  | controllerStopped
  | queuesInitialized
  | promotionAdmitted
  | promotionQueued
  | promotionActivated
  | promotionDeferred
  | promotionConcluded
  | staleEntryDiscarded
  | promotionDispatched
  | promotionRechecked
  | phaseTransition
  | reconcileFailed
  | watchLagged
deriving DecidableEq, Repr

namespace Event

def all : List Event :=
  [controllerStarted, controllerStopped, queuesInitialized, promotionAdmitted, promotionQueued,
    promotionActivated, promotionDeferred, promotionConcluded, staleEntryDiscarded,
    promotionDispatched, promotionRechecked, phaseTransition, reconcileFailed, watchLagged]

def label : Event → String
  | controllerStarted => "CONTROLLER_STARTED"
  | controllerStopped => "CONTROLLER_STOPPED"
  | queuesInitialized => "QUEUES_INITIALIZED"
  | promotionAdmitted => "PROMOTION_ADMITTED"
  | promotionQueued => "PROMOTION_QUEUED"
  | promotionActivated => "PROMOTION_ACTIVATED"
  | promotionDeferred => "PROMOTION_DEFERRED"
  | promotionConcluded => "PROMOTION_CONCLUDED"
  | staleEntryDiscarded => "STALE_ENTRY_DISCARDED"
  | promotionDispatched => "PROMOTION_DISPATCHED"
  | promotionRechecked => "PROMOTION_RECHECKED"
  | phaseTransition => "PHASE_TRANSITION"
  | reconcileFailed => "RECONCILE_FAILED"
  | watchLagged => "WATCH_LAGGED"

def isWarning : Event → Bool
  | reconcileFailed | watchLagged => true
  | _ => false

end Event

inductive Level where
  | debug
  | info
  | warn
deriving DecidableEq, Repr

def Level.name : Level → String
  | .debug => "DEBUG"
  | .info => "INFO"
  | .warn => "WARN"

inductive LogRecord where
  /-- An event of the whole program. -/
  | general (event : Event)
  /-- A decision about a promotion and a stage. -/
  | decision (event : Event) (promotion : PromotionKey) (stage : StageKey)
  | releasedByResync (promotion : PromotionKey) (stage : StageKey)
  /-- The promoter wrote a status: the promotion that the status was meant for, and what the store
  holds since. -/
  | phaseTransition (source target : Promotion)
  | queuesInitialized (promotions stages : Nat)
  | reconcileFailed (promotion : PromotionKey) (retries : UInt32) (error : String)
  | watchLagged (skipped : Nat)
deriving DecidableEq

namespace LogRecord

def event : LogRecord → Event
  | general e => e
  | decision e _ _ => e
  | releasedByResync .. => .promotionConcluded
  | phaseTransition .. => .phaseTransition
  | queuesInitialized .. => .queuesInitialized
  | reconcileFailed .. => .reconcileFailed
  | watchLagged _ => .watchLagged

def level (r : LogRecord) : Level :=
  if r.event.isWarning then .warn
  else
    match r with
    | decision .. => .debug
    | _ => .info

def promotionFields (key : PromotionKey) : List (String × Json) :=
  [("namespace", .string key.ns), ("promotion", .string key.name)]

def fields : LogRecord → List (String × Json)
  | general _ => []
  | decision _ promotion stage | releasedByResync promotion stage =>
    promotionFields promotion ++ [("stage", .string stage.name)]
  | phaseTransition source target =>
    promotionFields source.key ++
      [("from", source.phase.toJson), ("to", target.phase.toJson),
        ("error", .string (target.status.error.getD ""))]
  | queuesInitialized promotions stages =>
    [("promotions", .nat promotions), ("stages", .nat stages)]
  | reconcileFailed promotion retries error =>
    promotionFields promotion ++ [("retries", .nat retries.toNat), ("error", .string error)]
  | watchLagged skipped => [("skipped", .nat skipped)]

def toJson (r : LogRecord) : Json :=
  .object (("level", .string r.level.name) :: ("event", .string r.event.label) :: r.fields)

end LogRecord

end StageGate
