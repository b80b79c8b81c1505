import StageGate.Promoter.Reconcile
import StageGate.Promoter.Recovery

/-!
# Running

A run is a sequence of steps: the promoter takes the next change off the feed, or a worker takes a
key, makes an attempt and acts on its outcome, or, where there is nothing to do, the clock goes on
to the time when the next request falls due. Without workers only the feed is read. A run is settled
once no step is left.
-/

namespace StageGate

-- ---------------------------------------------------------------------------
-- Single steps
-- ---------------------------------------------------------------------------

namespace World

def receive : Action (Option Delivery) := fun w =>
  match w.store.feed.receive w.position with
  | none => (none, w)
  | some (delivery, position) => (some delivery, { w with position })

/-- Acts on a delivery. A resync that fails is not repeated. -/
def onDelivery : Delivery → Action Unit
  | .change c => handle c
  | .lagged missed => do
    record (.watchLagged missed)
    let _ ← resync.run

def takeKey : Action (Option PromotionKey) := fun w =>
  ((w.queue.tryGet w.now).1, { w with queue := (w.queue.tryGet w.now).2 })

def doneWith (key : PromotionKey) : Action Unit :=
  modify fun w => { w with queue := w.queue.done key }

def forget (key : PromotionKey) : Action Unit :=
  modify fun w => { w with queue := w.queue.forget key }

/-- What a worker does about the outcome of an attempt: a failed one is repeated after its backoff,
and a promotion in progress is looked at again later. -/
def onOutcome (key : PromotionKey) : Except ReconcileError Outcome → Action Unit
  | .ok .done => forget key
  | .ok (.requeueAfter delay) => do
    forget key
    enqueueAfter key delay
  | .error e => do
    count fun c => { c with reconcileErrors := c.reconcileErrors + 1 }
    match e with
    | .crashed _ => pure ()
    | e => record (.reconcileFailed key ((← get).queue.requeues key) e.message)
    enqueueRateLimited key

/-- Sets the clock on to when the next request falls due; nothing if none is waiting. -/
def passTime (w : World) : Option World :=
  w.queue.nextDue?.map fun due => { w with now := max w.now due }

end World

-- ---------------------------------------------------------------------------
-- Runs
-- ---------------------------------------------------------------------------

/-- A world together with what the mechanics will answer. -/
structure Run where
  world : World
  playbook : Playbook := {}

namespace Run

def attempt (r : Run) (key : PromotionKey) : Except ReconcileError Outcome × Run :=
  let (task, world) := (World.prepare key).run r.world
  match task with
  | .error e => (.error e, { r with world })
  | .ok none => (.ok .done, { r with world })
  | .ok (some task) =>
    let (answer, playbook) := r.playbook.perform task.stage task.promotion
    let (outcome, world) := (World.finish task answer).run world
    (outcome, ⟨world, playbook⟩)

def deliver (r : Run) : Option Run :=
  match World.receive.run r.world with
  | (none, _) => none
  | (some delivery, world) => some { r with world := ((World.onDelivery delivery).run world).2 }

def hasWorkers (r : Run) : Bool := r.world.settings.workers != 0

def work (r : Run) : Option Run :=
  if r.hasWorkers then
    match World.takeKey.run r.world with
    | (none, _) => none
    | (some key, world) =>
      let (outcome, r) := { r with world }.attempt key
      let act : Action Unit := do
        World.onOutcome key outcome
        World.doneWith key
      some { r with world := (act.run r.world).2 }
  else none

/-- Waits for the next request that falls due. -/
def passTime (r : Run) : Option Run :=
  if r.hasWorkers then r.world.passTime.map fun world => { r with world } else none

/-- The next step: what has happened is heard of before more is done, and time passes only where
nothing else is left to do. -/
def step (r : Run) : Option Run := r.deliver <|> r.work <|> r.passTime

/-- Steps on until the world is as wanted, or no step is left, or the fuel is. -/
def runUntil (wanted : World → Bool) : Nat → Run → Run
  | 0, r => r
  | fuel + 1, r =>
    if wanted r.world then r
    else
      match r.step with
      | none => r
      | some r => runUntil wanted fuel r

def settle (fuel : Nat) (r : Run) : Run := r.runUntil (fun _ => false) fuel

/-- Starts the promoter: from here on it hears of changes, and what there is is admitted. -/
def open? (r : Run) : Except StoreError Run :=
  let world := { r.world with position := r.world.store.feed.front }
  match World.initializeQueues.run world with
  | (.error e, _) => .error e
  | (.ok _, world) =>
    .ok { r with world := ((World.record (.general .controllerStarted)).run world).2 }

/-- The workers finish up to `n` keys that are ready. -/
def drain : (n : Nat) → Run → Run
  | 0, r => r
  | n + 1, r =>
    match r.work with
    | none => r
    | some r => drain n r

/-- Stops the promoter: it hears of no more changes and takes no more requests, but what is ready is
still worked on. -/
def close (r : Run) : Run :=
  let world := { r.world with queue := r.world.queue.close }
  let r := drain world.queue.size { r with world }
  { r with world := ((World.record (.general .controllerStopped)).run r.world).2 }

end Run

end StageGate
