import StageGate.Promoter.World

/-!
# Dispatch

When a stage becomes free, the first promotion in its line that still exists and has not ended is
sent to the work queue. It stays in line: it takes the stage itself once a worker gets to it.
-/

namespace StageGate.World

/-- A promotion in line is valid as long as it exists and has not ended. -/
def revalidate (key : PromotionKey) : Action (Except StoreError Verdict) := do
  match ← readPromotion key with
  | .error e => return .error e
  | .ok (some p) => return .ok (if p.isTerminal then .stale else .valid)
  | .ok none => return .ok .stale

/-- Sends the next promotion of an idle stage to the work queue. Stale ones leave the line on the
way, and a read that fails ends the attempt. -/
def enqueueNext (stage : StageKey) : Action (Option PromotionKey) := do
  let (selection, gates) ← (← get).gates.select revalidate stage
  modify fun w => { w with gates }
  selection.stale.forM fun key => do
    count fun c => { c with staleDiscards := c.staleDiscards + 1 }
    record (.decision .staleEntryDiscarded key stage)
  match selection.next with
  | .ok (some next) =>
    enqueueRateLimited next
    count fun c => { c with dispatches := c.dispatches + 1 }
    record (.decision .promotionDispatched next stage)
    return some next
  | _ => return none

/-- Ends a promotion's turn at a stage, if it has it, and sends the next one. -/
def release (stage : StageKey) (key : PromotionKey) : Action Unit := do
  if ← atGates (·.conclude stage key) then
    count fun c => { c with conclusions := c.conclusions + 1 }
    record (.decision .promotionConcluded key stage)
  let _ ← enqueueNext stage

end StageGate.World
