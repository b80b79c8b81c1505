import StageGate.Counters
import StageGate.Event
import StageGate.Gates
import StageGate.Promoter.Disturbance
import StageGate.Settings
import StageGate.Store.Basic
import StageGate.WorkQueue

/-!
# The promoter and its world

The promoter owns the gates, the work queue, the counters and its log; the store belongs to
everyone. A step of the promoter is an action on this world. All of its calls to the store are here,
and each of them meets the disturbance that is laid down for it.
-/

namespace StageGate

structure World where
  settings : Settings
  store : Store
  /-- How far the promoter has read the feed. -/
  position : Nat := 0
  gates : Gates := {}
  queue : WorkQueue
  counters : Counters := {}
  /-- The latest record comes first. -/
  log : List LogRecord := []
  disturbances : Disturbances := {}
  now : Instant := 0

abbrev Action := StateM World

namespace World

def start (settings : Settings) (store : Store) : World :=
  { settings, store, queue := { backoff := settings.backoff } }

-- ---------------------------------------------------------------------------
-- The promoter's own
-- ---------------------------------------------------------------------------

def record (r : LogRecord) : Action Unit := modify fun w => { w with log := r :: w.log }

def count (up : Counters → Counters) : Action Unit :=
  modify fun w => { w with counters := up w.counters }

def atGates {α : Type} (act : Gates → α × Gates) : Action α := fun w =>
  ((act w.gates).1, { w with gates := (act w.gates).2 })

def enqueue (key : PromotionKey) : Action Unit :=
  modify fun w => { w with queue := w.queue.add key }

def enqueueAfter (key : PromotionKey) (delay : Duration) : Action Unit :=
  modify fun w => { w with queue := w.queue.addAfter w.now key delay }

/-- Enqueues a key after its backoff; no random stretch is drawn. -/
def enqueueRateLimited (key : PromotionKey) : Action Unit :=
  modify fun w => { w with queue := w.queue.addRateLimited w.now key .zero }

def isResponsibleFor (m : Metadata) : Action Bool := fun w => (w.settings.isResponsibleFor m, w)

-- ---------------------------------------------------------------------------
-- Calls to the store
-- ---------------------------------------------------------------------------

/-- Makes a call about `target` as its disturbance has it. -/
def callStore {α : Type} (call : StoreCall) (target : Option PromotionKey)
    (act : Store → Except StoreError α × Store) : Action (Except StoreError α) := fun w =>
  let d := w.disturbances.next call
  let w := { w with
    disturbances := w.disturbances.rest call
    store := d.before.foldl (Meddling.apply target) w.store }
  match d.outage with
  | some text => (.error (.unavailable text), w)
  | none =>
    let (answer, store) := act w.store
    (answer, { w with store := d.after.foldl (Meddling.apply target) store })

/-- Frees the stage of a promotion just read, if the disturbance of the read says so. -/
def concludeRead (d : Disturbance) (key : PromotionKey) :
    Except StoreError (Option Promotion) → Action Unit
  | .ok (some p) =>
    if d.concludes then do
      let _ ← atGates (·.conclude p.stageKey key)
    else pure ()
  | _ => pure ()

def readPromotion (key : PromotionKey) : Action (Except StoreError (Option Promotion)) := do
  let d := (← get).disturbances.next .readPromotion
  let answer ← callStore .readPromotion (some key) fun s => (.ok (s.promotion? key), s)
  concludeRead d key answer
  return answer

def readStage (key : StageKey) : Action (Except StoreError (Option Stage)) :=
  callStore .readStage none fun s => (.ok (s.stage? key), s)

def listPromotions : Action (Except StoreError (List Promotion)) :=
  callStore .listPromotions none fun s => (.ok s.promotionList, s)

def listRunning (app : ApplicationKey) : Action (Except StoreError (List Promotion)) :=
  callStore .listRunning none fun s => (.ok (s.runningAgainst app), s)

def updateStatus (key : PromotionKey) (version : UInt64) (status : PromotionStatus) :
    Action (Except StoreError Promotion) :=
  callStore .updateStatus (some key) fun s =>
    match s.updateStatus key version status with
    | .ok (p, s) => (.ok p, s)
    | .error e => (.error e, s)

end World

end StageGate
