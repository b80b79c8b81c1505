import StageGate.Promoter.Dispatch

/-!
# Watching the feed

What the promoter does about each change: it admits what is new, frees the stage of what has ended
or is gone, and looks again at what runs against an application that changed.
-/

namespace StageGate.World

/-- Admits a promotion that has not ended; it is worked on at once if its stage is idle. -/
def onPromotionCreated (p : Promotion) : Action Unit := do
  if !p.isTerminal && (← isResponsibleFor p.metadata) then
    count fun c => { c with admissions := c.admissions + 1 }
    match ← atGates (·.enroll p.stageKey (.ofPromotion p)) with
    | .becameActive =>
      record (.decision .promotionAdmitted p.key p.stageKey)
      enqueue p.key
    | .queued => record (.decision .promotionQueued p.key p.stageKey)

/-- Only the step to a terminal phase matters. -/
def onPromotionUpdated (old new : Promotion) : Action Unit := do
  if !old.isTerminal && new.isTerminal then
    if ← isResponsibleFor new.metadata then release new.stageKey new.key

/-- A deleted promotion that stands in line is left there; the next selection throws it out. -/
def onPromotionDeleted (p : Promotion) : Action Unit := do
  if ← isResponsibleFor p.metadata then release p.stageKey p.key

def onApplicationUpdated (app : Application) : Action Unit := do
  match ← listRunning app.key with
  | .error _ => return
  | .ok promotions =>
    promotions.forM fun p => do
      if ← isResponsibleFor p.metadata then
        count fun c => { c with rechecks := c.rechecks + 1 }
        record (.decision .promotionRechecked p.key p.stageKey)
        enqueue p.key

/-- An update that lacks a side is passed over. -/
def handle : Change → Action Unit
  | .promotionCreated p => onPromotionCreated p
  | .promotionUpdated (some old) (some new) => onPromotionUpdated old new
  | .promotionDeleted p => onPromotionDeleted p
  | .applicationUpdated (some _) (some app) => onApplicationUpdated app
  | .promotionUpdated _ _ | .applicationUpdated _ _ => pure ()

end StageGate.World
