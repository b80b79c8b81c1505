import StageGate.Resource.Promotion
import StageGate.Resource.Stage
import StageGate.Text.Quoted

/-!
# Mechanics

The work that a promotion does once it holds its stage. The promoter only sees what comes of it.
-/

namespace StageGate

inductive Answer where
  /-- A status that is not terminal means that the work goes on. -/
  | status (status : PromotionStatus)
  /-- The promotion can never succeed as it is. -/
  | structural (text : String)
  /-- The attempt failed and may succeed later. -/
  | transient (text : String)
  | crash
deriving DecidableEq, Repr

abbrev Mechanics := Stage → Promotion → Answer

/-- Mechanics that write nothing: a promotion succeeds if its stage has mechanisms and the state
that it asks for is available there. -/
def specCheck : Mechanics := fun stage p =>
  if stage.spec.mechanisms.all Mechanisms.isEmpty then
    .structural ("Stage " ++ stage.key.display ++ " has no promotion mechanisms")
  else if (stage.availableState? p.spec.state).isNone then
    .structural ("state " ++ Text.quoted p.spec.state ++ " is not available to Stage " ++
      stage.key.display)
  else .status (.ofPhase .succeeded)

/-- Answers laid down by the name of the promotion. Each attempt takes the next one, and the last
one stays. -/
structure Playbook where
  scripts : SortedMap String (List Answer) := .empty

namespace Playbook

def set (b : Playbook) (name : String) (answers : List Answer) : Playbook :=
  ⟨b.scripts.insert name answers⟩

/-- The answer to an attempt; a promotion without a script has its specification checked. -/
def perform (b : Playbook) (stage : Stage) (p : Promotion) : Answer × Playbook :=
  match b.scripts.get? p.metadata.name with
  | none | some [] => (specCheck stage p, b)
  | some [answer] => (answer, b)
  | some (answer :: rest) => (answer, b.set p.metadata.name rest)

end Playbook

end StageGate
