import StageGate.Proofs.Promoter.Actions

/-!
# Properties that actions are made of

The promoter's actions are put together from few steps: it makes notes, asks the store, searches in
lines, frees stages and writes statuses. A property that a composition has if its parts have it is
`Composing`; what else it has to be true of is said in stages, up to `Attempting`, and at each stage
it is true of the actions that are made of those steps alone. The property may say how the world
after the action relates to the one before, for any relation that holds of a world and itself and
from one world by way of another (`Composing.of_rel`). Main statements: `Dispatching.enqueueNext`,
`Releasing.release`, `Attempting.writeStatus`, `Attempting.finish` and, for properties of what may
fail, `Recovering.initializeQueues`.
-/

namespace StageGate

/-- The promotion that a record tells the activation of. -/
def LogRecord.activated? : LogRecord → Option PromotionKey
  | .decision .promotionActivated key _ => some key
  | _ => none

namespace World

-- ---------------------------------------------------------------------------
-- Actions in parts
-- ---------------------------------------------------------------------------

/-- Searches the line of a stage and leaves the gates as the search does. -/
def seek (stage : StageKey) : Action (Selection StoreError) := do
  let (selection, gates) ← (← get).gates.select revalidate stage
  modify fun w => { w with gates }
  return selection

theorem run_seek (stage : StageKey) (w : World) : (seek stage).run w =
    (((w.gates.select revalidate stage).run w).1.1,
      { ((w.gates.select revalidate stage).run w).2 with
        gates := ((w.gates.select revalidate stage).run w).1.2 }) := rfl

def send (stage : StageKey) (selection : Selection StoreError) : Action (Option PromotionKey) := do
  selection.stale.forM fun key => do
    count fun c => { c with staleDiscards := c.staleDiscards + 1 }
    record (.decision .staleEntryDiscarded key stage)
  match selection.next with
  | .ok (some next) =>
    enqueueRateLimited next
    count fun c => { c with dispatches := c.dispatches + 1 }
    record (.decision .promotionDispatched next stage)
    return some next
  | _ => return none

theorem enqueueNext_eq (stage : StageKey) : enqueueNext stage = seek stage >>= send stage := rfl

def heed (p : Promotion) : Claim → Action Bool
  | .activated => return true
  | .activeElsewhere _ => do
    count fun c => { c with deferrals := c.deferrals + 1 }
    record (.decision .promotionDeferred p.key p.stageKey)
    return false
  | .notNext _ => do
    count fun c => { c with deferrals := c.deferrals + 1 }
    record (.decision .promotionDeferred p.key p.stageKey)
    let _ ← enqueueNext p.stageKey
    return false

theorem claimStage_eq (p : Promotion) :
    claimStage p = atGates (·.claim p.stageKey (.ofPromotion p)) >>= heed p := rfl

/-- One try to write a status, with what follows if it fails for another reason than that the
promotion is gone. -/
def firstTry (p : Promotion) (status : PromotionStatus) (version : UInt64)
    (otherwise : StoreError → Attempt (Option Promotion)) : Attempt (Option Promotion) := do
  match ← (updateStatus p.key version status : Action _) with
  | .ok updated =>
    record (.phaseTransition p updated)
    return some updated
  | .error cause =>
    if cause.isNotFound then
      release p.stageKey p.key
      return none
    otherwise cause

theorem writeStatus_zero (p : Promotion) (status : PromotionStatus) (version : UInt64) :
    writeStatus p status 0 version =
      firstTry p status version fun cause => throw (.statusUpdate p.key cause) := by
  rw [writeStatus]
  rfl

theorem writeStatus_succ (p : Promotion) (status : PromotionStatus) (retries : Nat)
    (version : UInt64) : writeStatus p status (retries + 1) version =
      firstTry p status version (fun cause => do
        if !cause.isConflict then throw (.statusUpdate p.key cause)
        match ← (readPromotion p.key : Action _) with
        | .error cause => throw (.statusUpdate p.key cause)
        | .ok none =>
          release p.stageKey p.key
          return none
        | .ok (some latest) =>
          if latest.isTerminal then
            release p.stageKey p.key
            return some latest
          writeStatus p status retries latest.metadata.version) := by
  rw [writeStatus]
  rfl

-- ---------------------------------------------------------------------------
-- Compositions
-- ---------------------------------------------------------------------------

variable {P : (α : Type) → Action α → Prop}

structure Composing (P : (α : Type) → Action α → Prop) : Prop where
  pure {α : Type} (a : α) : P α (Pure.pure a)
  bind {α β : Type} {x : Action α} {f : α → Action β} (hx : P α x) (hf : ∀ a, P β (f a)) :
    P β (x >>= f)

namespace Composing

theorem of_rel {R : World → World → Prop} (refl : ∀ w, R w w)
    (trans : ∀ {w v u}, R w v → R v u → R w u) :
    Composing fun _ x => ∀ w, R w (x.run w).2 where
  pure _ w := refl w
  bind hx hf w := trans (hx w) (hf _ _)

theorem forM (h : Composing P) {f : α → Action PUnit} (hf : ∀ a, P _ (f a)) (items : List α) :
    P _ (items.forM f) := by
  induction items with
  | nil => exact h.pure _
  | cons a items ih => exact h.bind (hf a) fun _ => ih

theorem lift_bind (h : Composing P) {x : Action α} {g : α → ExceptT ε Action β} (hx : P _ x)
    (hg : ∀ a, P _ (g a).run) : P _ ((liftM x : ExceptT ε Action α) >>= g).run := h.bind hx hg

theorem attempt_bind (h : Composing P) {y : ExceptT ε Action α} {g : α → ExceptT ε Action β}
    (hy : P _ y.run) (hg : ∀ a, P _ (g a).run) : P _ (y >>= g).run := by
  rw [ExceptT.run_bind]
  refine h.bind hy fun answer => ?_
  cases answer with
  | ok a => exact hg a
  | error e => exact h.pure _

theorem readPromotion (h : Composing P) (get : P _ (MonadState.get : Action World))
    {key : PromotionKey}
    (ask : P _ (callStore .readPromotion (some key) fun s => (.ok (s.promotion? key), s)))
    (conclude : ∀ stage, P _ (atGates (·.conclude stage key))) :
    P _ (World.readPromotion key) := by
  unfold World.readPromotion
  refine h.bind get fun w => h.bind ask fun answer => h.bind ?_ fun _ => h.pure _
  unfold concludeRead
  split
  · split
    · exact h.bind (conclude _) fun _ => h.pure _
    · exact h.pure _
  · exact h.pure _

-- ---------------------------------------------------------------------------
-- Searches in a line
-- ---------------------------------------------------------------------------

variable (h : Composing P) (looks : ∀ key, P _ (World.readPromotion key))
include h looks

theorem revalidate (key : PromotionKey) : P _ (World.revalidate key) := by
  unfold World.revalidate
  refine h.bind (looks key) fun answer => ?_
  rcases answer with e | _ | p <;> exact h.pure _

theorem selectFrom (line : List Entry) : P _ (Gate.selectFrom World.revalidate line) := by
  induction line with
  | nil => exact h.pure _
  | cons e rest ih =>
    refine h.bind (h.revalidate looks e.key) fun verdict => ?_
    rcases verdict with err | _ | _
    · exact h.pure _
    · exact h.pure _
    · exact h.bind ih fun _ => h.pure _

theorem select (gs : Gates) (stage : StageKey) : P _ (gs.select World.revalidate stage) := by
  unfold Gates.select
  split
  · exact h.pure _
  · refine h.bind ?_ fun _ => h.pure _
    unfold Gate.select
    split
    · exact h.pure _
    · exact h.bind (h.selectFrom looks _) fun _ => h.pure _

end Composing

-- ---------------------------------------------------------------------------
-- Notes and dispatch
-- ---------------------------------------------------------------------------

/-- The property is true of what the promoter notes for itself, unless that is an activation. -/
structure Noting (P : (α : Type) → Action α → Prop) : Prop extends Composing P where
  record {r : LogRecord} (h : r.activated? = none) : P _ (World.record r)
  count {up : Counters → Counters} (h : ∀ c, (up c).activations = c.activations) :
    P _ (World.count up)
  enqueue (key : PromotionKey) : P _ (World.enqueue key)
  enqueueRateLimited (key : PromotionKey) : P _ (World.enqueueRateLimited key)

theorem Noting.onPromotionCreated (h : Noting P) {p : Promotion}
    (responsible : P _ (isResponsibleFor p.metadata))
    (enroll : P _ (atGates (·.enroll p.stageKey (.ofPromotion p)))) :
    P _ (World.onPromotionCreated p) := by
  unfold World.onPromotionCreated
  refine h.bind responsible fun responsible => ?_
  split
  · refine h.bind (h.count fun _ => rfl) fun _ => h.bind enroll fun admission => ?_
    cases admission with
    | becameActive => exact h.bind (h.record rfl) fun _ => h.enqueue _
    | queued => exact h.record rfl
  · exact h.pure _

theorem Noting.onApplicationUpdated (h : Noting P) {app : Application}
    (running : P _ (listRunning app.key)) (responsible : ∀ m, P _ (isResponsibleFor m)) :
    P _ (World.onApplicationUpdated app) := by
  unfold World.onApplicationUpdated
  refine h.bind running fun answer => ?_
  cases answer with
  | error e => exact h.pure _
  | ok promotions =>
    refine h.forM (fun p => h.bind (responsible _) fun responsible => ?_) _
    split
    · refine h.bind (h.count fun _ => rfl) fun _ => ?_
      exact h.bind (h.record rfl) fun _ => h.enqueue _
    · exact h.pure _

/-- The property is true of looks at promotions, and of a search if it is true of its looks. -/
structure Dispatching (P : (α : Type) → Action α → Prop) : Prop extends Noting P where
  readPromotion (key : PromotionKey) : P _ (World.readPromotion key)
  seek (stage : StageKey) (looks : ∀ gs : Gates, P _ (gs.select World.revalidate stage)) :
    P _ (World.seek stage)

theorem Dispatching.enqueueNext (h : Dispatching P) (stage : StageKey) :
    P _ (World.enqueueNext stage) := by
  rw [enqueueNext_eq]
  refine h.bind (h.seek stage fun gs => h.select h.readPromotion gs stage) fun selection => ?_
  unfold World.send
  have dismiss (key : PromotionKey) : P _ (do
      World.count fun c => { c with staleDiscards := c.staleDiscards + 1 }
      World.record (.decision .staleEntryDiscarded key stage)) :=
    h.bind (h.count fun _ => rfl) fun _ => h.record rfl
  refine h.bind (h.forM dismiss _) fun _ => ?_
  rcases selection.next with e | _ | next
  · exact h.pure _
  · exact h.pure _
  · refine h.bind (h.enqueueRateLimited next) fun _ => h.bind (h.count fun _ => rfl) fun _ => ?_
    exact h.bind (h.record rfl) fun _ => h.pure _

theorem Dispatching.heed (h : Dispatching P) (p : Promotion) (claim : Claim) :
    P _ (World.heed p claim) := by
  cases claim with
  | activated => exact h.pure _
  | activeElsewhere other =>
    refine h.bind (h.count fun _ => rfl) fun _ => ?_
    exact h.bind (h.record rfl) fun _ => h.pure _
  | notNext head =>
    refine h.bind (h.count fun _ => rfl) fun _ => h.bind (h.record rfl) fun _ => ?_
    exact h.bind (h.enqueueNext _) fun _ => h.pure _

-- ---------------------------------------------------------------------------
-- Stages that become free
-- ---------------------------------------------------------------------------

structure Releasing (P : (α : Type) → Action α → Prop) : Prop extends Dispatching P where
  conclude (stage : StageKey) (key : PromotionKey) : P _ (atGates (·.conclude stage key))

theorem Releasing.release (h : Releasing P) (stage : StageKey) (key : PromotionKey) :
    P _ (World.release stage key) := by
  unfold World.release
  refine h.bind (h.conclude stage key) fun concluded => ?_
  split
  · refine h.bind (h.count fun _ => rfl) fun _ => h.bind (h.record rfl) fun _ => ?_
    exact h.bind (h.enqueueNext stage) fun _ => h.pure _
  · exact h.bind (h.enqueueNext stage) fun _ => h.pure _

-- ---------------------------------------------------------------------------
-- Attempts
-- ---------------------------------------------------------------------------

/-- The property is true of all other calls to the store that an attempt makes. -/
structure Attempting (P : (α : Type) → Action α → Prop) : Prop extends Releasing P where
  get : P _ (MonadState.get : Action World)
  readStage (key : StageKey) : P _ (World.readStage key)
  updateStatus (key : PromotionKey) (version : UInt64) (status : PromotionStatus) :
    P _ (World.updateStatus key version status)

namespace Attempting

variable (h : Attempting P) {status : PromotionStatus}
include h

theorem firstTry {p : Promotion} {version : UInt64}
    {otherwise : StoreError → Attempt (Option Promotion)}
    (rest : ∀ cause, P _ (otherwise cause).run) :
    P _ (World.firstTry p status version otherwise).run := by
  unfold World.firstTry
  refine h.lift_bind (h.updateStatus _ _ _) fun answer => ?_
  cases answer with
  | ok updated => exact h.lift_bind (h.record rfl) fun _ => h.pure _
  | error cause =>
    simp only
    split
    · exact h.lift_bind (h.release _ _) fun _ => h.pure _
    · exact rest cause

theorem writeStatus (p : Promotion) (status : PromotionStatus) (retries : Nat)
    (version : UInt64) : P _ (World.writeStatus p status retries version).run := by
  induction retries generalizing version with
  | zero =>
    rw [writeStatus_zero]
    exact h.firstTry fun cause => h.pure _
  | succ retries ih =>
    rw [writeStatus_succ]
    refine h.firstTry fun cause => ?_
    split
    · exact h.pure _
    · refine h.lift_bind (h.readPromotion _) fun again => ?_
      rcases again with e | _ | latest
      · exact h.pure _
      · exact h.lift_bind (h.release _ _) fun _ => h.pure _
      · simp only
        split
        · exact h.lift_bind (h.release _ _) fun _ => h.pure _
        · exact ih _

theorem setStatus (p : Promotion) (status : PromotionStatus) :
    P _ (World.setStatus p status).run := h.lift_bind h.get fun _ => h.writeStatus _ _ _ _

theorem finish (task : Task) (answer : Answer) : P _ (World.finish task answer).run := by
  unfold World.finish
  cases answer with
  | status status =>
    simp only
    split
    · exact h.attempt_bind (h.setStatus _ _) fun _ => h.pure _
    · exact h.lift_bind h.get fun _ => h.pure _
  | structural text => exact h.attempt_bind (h.setStatus _ _) fun _ => h.pure _
  | transient text => exact h.pure _
  | crash => exact h.pure _

end Attempting

-- ---------------------------------------------------------------------------
-- Building the lines anew
-- ---------------------------------------------------------------------------

variable {Q : (ε α : Type) → ExceptT ε Action α → Prop}

/-- A property of what may fail that is composed in the same way. What is laid down to disturb the
calls to come is not looked at. -/
structure Recovering (Q : (ε α : Type) → ExceptT ε Action α → Prop) : Prop where
  pure {ε α : Type} (a : α) : Q ε α (Pure.pure a)
  bind {ε α β : Type} {x : ExceptT ε Action α} {f : α → ExceptT ε Action β} (hx : Q ε α x)
    (hf : ∀ a, Q ε β (f a)) : Q ε β (x >>= f)
  get {ε α : Type} {f : World → ExceptT ε Action α} (hf : ∀ w, Q ε α (f w))
    (same : ∀ (w : World) d, f { w with disturbances := d } = f w) :
    Q ε α (MonadState.get >>= f)
  record {ε : Type} {r : LogRecord} (h : r.activated? = none) : Q ε _ (liftM (World.record r))
  count {ε : Type} {up : Counters → Counters} (h : ∀ c, (up c).activations = c.activations) :
    Q ε _ (liftM (World.count up))
  readPromotion (key : PromotionKey) : Q _ _ (ExceptT.mk (World.readPromotion key))
  conclude {ε : Type} (stage : StageKey) (key : PromotionKey) :
    Q ε _ (liftM (atGates (·.conclude stage key)))

theorem Releasing.recovering (h : Releasing P) (get : P _ (MonadState.get : Action World)) :
    Recovering fun _ _ x => P _ x.run where
  pure _ := h.pure _
  bind hx hf := h.attempt_bind hx hf
  get hf _ := h.lift_bind get hf
  record hr := h.bind (h.record hr) fun _ => h.pure _
  count hc := h.bind (h.count hc) fun _ => h.pure _
  readPromotion key := h.readPromotion key
  conclude stage key := h.bind (h.conclude stage key) fun _ => h.pure _

namespace Recovering

variable (h : Recovering Q)
include h

theorem forM {f : α → ExceptT ε Action PUnit} (hf : ∀ a, Q ε _ (f a)) (items : List α) :
    Q ε _ (items.forM f) := by
  induction items with
  | nil => exact h.pure _
  | cons a items ih => exact h.bind (hf a) fun _ => ih

theorem releaseStale (stage : StageKey) : Q _ _ (World.releaseStale stage) := by
  unfold World.releaseStale
  refine h.get (fun w => ?_) fun _ _ => rfl
  cases w.gates.active? stage with
  | none => exact h.pure _
  | some active =>
    refine h.bind (h.readPromotion active) fun p? => ?_
    split
    · refine h.bind (h.conclude _ _) fun concluded => ?_
      cases concluded with
      | false => exact h.pure _
      | true => exact h.bind (h.count fun _ => rfl) fun _ => h.record rfl
    · exact h.pure _

theorem initializeQueues (list : Q _ _ (ExceptT.mk listPromotions))
    (admits : ∀ p, Q StoreError _ (liftM (onPromotionCreated p))) :
    Q _ _ World.initializeQueues := by
  unfold World.initializeQueues
  refine h.bind list fun all => h.get (fun w => ?_) fun _ _ => rfl
  refine h.bind (h.forM admits _) fun _ => h.get (fun w => ?_) fun _ _ => rfl
  exact h.bind (h.record rfl) fun _ => h.pure _

end Recovering

end World

end StageGate
