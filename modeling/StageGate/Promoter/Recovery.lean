import StageGate.Promoter.Watch

/-!
# Building the lines anew

At the start every promotion that is at work or waits is admitted, those at work first, so that they
get their stages back. After changes were missed, the stages of promotions that ended or are gone
are freed as well.
-/

namespace StageGate.World

/-- The order of admission at the start: running promotions before the others, then the oldest. -/
def admissionOrder (a b : Promotion) : Ordering :=
  (compare (b.phase = .running : Bool) (a.phase = .running : Bool)).then
    (Entry.oldestFirst (.ofPromotion a) (.ofPromotion b))

def toAdmit (settings : Settings) (all : List Promotion) : List Promotion :=
  (all.filter fun p => !p.isTerminal && settings.isResponsibleFor p.metadata).mergeSort
    fun a b => admissionOrder a b != .gt

/-- Admits what there is, and says how many promotions that were. -/
def initializeQueues : ExceptT StoreError Action Nat := do
  let all ← ExceptT.mk listPromotions
  let promotions := toAdmit (← get).settings all
  promotions.forM fun p => (onPromotionCreated p : Action Unit)
  let stages := (← get).gates.stages
  record (.queuesInitialized promotions.length stages.length)
  return promotions.length

def releaseStale (stage : StageKey) : ExceptT StoreError Action Unit := do
  match (← get).gates.active? stage with
  | none => return
  | some active =>
    let p? ← ExceptT.mk (readPromotion active)
    if p?.all Promotion.isTerminal then
      if ← (atGates (·.conclude stage active) : Action Bool) then
        count fun c => { c with conclusions := c.conclusions + 1 }
        record (.releasedByResync active stage)

/-- Brings the gates back in line with the store after missed changes: frees stages, admits what was
not seen, then sends the next promotion of every stage. -/
def resync : ExceptT StoreError Action Unit := do
  (← get).gates.stages.forM releaseStale
  let _ ← initializeQueues
  (← get).gates.stages.forM fun stage => do
    let _ ← (enqueueNext stage : Action _)

end StageGate.World
