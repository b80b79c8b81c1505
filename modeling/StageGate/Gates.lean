import StageGate.Gate

/-!
# The gates of all stages

Every stage that a promotion was admitted to, or claimed, has a gate from then on. An operation on
one stage leaves the gates of the others alone.
-/

namespace StageGate

structure Gates where
  order : Entry → Entry → Ordering := Entry.oldestFirst
  byStage : SortedMap StageKey Gate := .empty

namespace Gates

def gate? (gs : Gates) (stage : StageKey) : Option Gate := gs.byStage.get? stage

/-- The gate of a stage, which is idle and has no line if the stage is new. -/
def gate (gs : Gates) (stage : StageKey) : Gate := (gs.gate? stage).getD {}

def set (gs : Gates) (stage : StageKey) (g : Gate) : Gates :=
  { gs with byStage := gs.byStage.insert stage g }

/-- Works on the gate of a stage that has one; another stage gets none by it. -/
def onKnown {α : Type} (gs : Gates) (stage : StageKey) (absent : α) (act : Gate → α × Gate) :
    α × Gates :=
  match gs.gate? stage with
  | some g => ((act g).1, gs.set stage (act g).2)
  | none => (absent, gs)

def enroll (gs : Gates) (stage : StageKey) (e : Entry) : Admission × Gates :=
  let (admission, g) := (gs.gate stage).enroll gs.order e
  (admission, gs.set stage g)

def claim (gs : Gates) (stage : StageKey) (e : Entry) : Claim × Gates :=
  let (claim, g) := (gs.gate stage).claim gs.order e
  (claim, gs.set stage g)

def conclude (gs : Gates) (stage : StageKey) (key : PromotionKey) : Bool × Gates :=
  gs.onKnown stage false (·.conclude key)

def select {m : Type → Type} [Monad m] {ε : Type} (check : PromotionKey → m (Except ε Verdict))
    (gs : Gates) (stage : StageKey) : m (Selection ε × Gates) :=
  match gs.gate? stage with
  | none => pure (⟨.ok none, []⟩, gs)
  | some g => do
    let (s, g) ← g.select check
    pure (s, gs.set stage g)

def peek? (gs : Gates) (stage : StageKey) : Option PromotionKey := (gs.gate stage).peek?

def pop (gs : Gates) (stage : StageKey) : Option PromotionKey × Gates :=
  gs.onKnown stage none Gate.pop

def remove (gs : Gates) (stage : StageKey) (key : PromotionKey) : Bool × Gates :=
  gs.onKnown stage false (·.remove key)

def active? (gs : Gates) (stage : StageKey) : Option PromotionKey := (gs.gate stage).holder

def pending (gs : Gates) (stage : StageKey) : List PromotionKey := (gs.gate stage).pending

def stages (gs : Gates) : List StageKey := gs.byStage.keys

@[simp] theorem gate_set_self (gs : Gates) (stage : StageKey) (g : Gate) :
    (gs.set stage g).gate stage = g := by
  simp [gate, gate?, set]

theorem gate_set_of_ne (gs : Gates) {stage other : StageKey} (g : Gate) (h : other ≠ stage) :
    (gs.set stage g).gate other = gs.gate other := by
  simp [gate, gate?, set, SortedMap.get?_insert_of_ne _ _ h]

end Gates

end StageGate
