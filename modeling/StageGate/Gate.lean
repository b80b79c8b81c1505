import StageGate.Backlog
import StageGate.Resource.Promotion

/-!
# The gate of a stage

A gate lets one promotion at a time into its stage: the holder. The others wait behind it. Nothing
here looks at resources; whether a waiting promotion is still worth running is a question that
`Gate.select` puts to its caller.
-/

namespace StageGate

/-- A promotion in line. Its key says which one it is, its age only where it stands. -/
structure Entry where
  key : PromotionKey
  created : Timestamp
deriving DecidableEq, Repr

namespace Entry

def ofPromotion (p : Promotion) : Entry := ⟨p.key, p.metadata.created⟩

/-- The oldest first; of two equally old ones the one with the lesser key. -/
def oldestFirst : Entry → Entry → Ordering :=
  compareLex (compareOn created) (compareOn key)

/-- Two entries of one promotion are the same, whatever age they give. -/
def discipline (order : Entry → Entry → Ordering) : Discipline Entry :=
  ⟨order, fun a b => a.key == b.key⟩

end Entry

structure Gate where
  holder : Option PromotionKey := none
  waiting : Backlog Entry := {}
deriving DecidableEq, Repr, Inhabited

inductive Admission where
  /-- The promotion holds the stage and is to run at once. -/
  | becameActive
  | queued
deriving DecidableEq, Repr

/-- What comes of a promotion's claim to its stage just before it runs. -/
inductive Claim where
  | activated
  | activeElsewhere (active : PromotionKey)
  /-- The stage is idle, but another promotion stands first in line. -/
  | notNext (head : PromotionKey)
deriving DecidableEq, Repr

def Claim.isActivated : Claim → Bool
  | .activated => true
  | _ => false

/-- What a check finds out about a promotion in line. -/
inductive Verdict where
  | valid
  /-- The promotion is gone or has come to an end. -/
  | stale
deriving DecidableEq, Repr

/-- What a search for the next promotion finds, and which ones it threw out on the way. -/
structure Selection (ε : Type) where
  next : Except ε (Option PromotionKey)
  stale : List PromotionKey := []

namespace Gate

variable (order : Entry → Entry → Ordering)

def push (g : Gate) (e : Entry) : Gate :=
  { g with waiting := (g.waiting.push (Entry.discipline order) e).2 }

/-- Lets a promotion in if the stage is idle, or puts it in line. -/
def enroll (g : Gate) (e : Entry) : Admission × Gate :=
  match g.holder with
  | none =>
    (.becameActive, ⟨some e.key, (g.waiting.remove (Entry.discipline order) e).2⟩)
  | some holder => if holder = e.key then (.becameActive, g) else (.queued, g.push order e)

/-- Frees the stage if this promotion holds it, and says whether it did. -/
def conclude (g : Gate) (key : PromotionKey) : Bool × Gate :=
  if g.holder = some key then (true, { g with holder := none }) else (false, g)

/-- Gives the stage to a promotion that holds it already, or to the first in line at an idle stage,
or to any at an idle stage without a line. Any other is put in line. -/
def claim (g : Gate) (e : Entry) : Claim × Gate :=
  match g.holder with
  | some holder =>
    if holder = e.key then (.activated, g) else (.activeElsewhere holder, g.push order e)
  | none =>
    match g.waiting.peek? with
    | none => (.activated, { g with holder := some e.key })
    | some head =>
      if head.key = e.key then (.activated, ⟨some e.key, g.waiting.pop.2⟩)
      else (.notNext head.key, g.push order e)

variable {m : Type → Type} [Monad m] {ε : Type}

/-- Checks the promotions of a line in turn up to the first that is not stale. What is left of the
line starts with that one. -/
def selectFrom (check : PromotionKey → m (Except ε Verdict)) :
    List Entry → m (Selection ε × List Entry)
  | [] => pure (⟨.ok none, []⟩, [])
  | e :: rest => do
    match ← check e.key with
    | .error err => pure (⟨.error err, []⟩, e :: rest)
    | .ok .valid => pure (⟨.ok (some e.key), []⟩, e :: rest)
    | .ok .stale =>
      let (s, left) ← selectFrom check rest
      pure ({ s with stale := e.key :: s.stale }, left)

/-- Finds the first promotion in line that is still worth running, and leaves it in line. Where the
stage has a holder there is none. -/
def select (check : PromotionKey → m (Except ε Verdict)) (g : Gate) : m (Selection ε × Gate) :=
  if g.holder.isSome then pure (⟨.ok none, []⟩, g)
  else do
    let (s, left) ← selectFrom check g.waiting.items
    pure (s, { g with waiting := ⟨left⟩ })

def peek? (g : Gate) : Option PromotionKey := g.waiting.peek?.map Entry.key

def pop (g : Gate) : Option PromotionKey × Gate :=
  (g.waiting.pop.1.map Entry.key, { g with waiting := g.waiting.pop.2 })

def remove (g : Gate) (key : PromotionKey) : Bool × Gate :=
  let (found, waiting) := g.waiting.removeFirst fun e => e.key == key
  (found.isSome, { g with waiting })

def pending (g : Gate) : List PromotionKey := g.waiting.items.map Entry.key

end Gate

end StageGate
