import StageGate.Resource.Application
import StageGate.Resource.Promotion

/-!
# The feed of changes

The store tells of every change in order. It holds the last 1024 changes for a reader; one that has
fallen further behind is told how many it has missed and goes on with the oldest that is held. Main
statements: a change joins the others at the end, and a reader that is not too far behind gets the
change at its position.
-/

namespace StageGate

/-- One change. An update that was delivered badly may lack a side. -/
inductive Change where
  | promotionCreated (promotion : Promotion)
  | promotionUpdated (old new : Option Promotion)
  | promotionDeleted (promotion : Promotion)
  | applicationUpdated (old new : Option Application)
deriving DecidableEq

inductive Delivery where
  | change (change : Change)
  | lagged (missed : Nat)
deriving DecidableEq

/-- All changes there have been, the latest first. A reader's position is the number of those that
lie behind it. -/
structure Feed where
  latest : List Change := []
  /-- The position of a reader that has seen all there is. -/
  front : Nat := 0
  front_eq : front = latest.length := by rfl
deriving DecidableEq

namespace Feed

/-- How many changes are held for a reader. It is sealed, as otherwise a subtraction of it is worked
out by counting down. -/
@[irreducible] def capacity : Nat := 1024

def emit (f : Feed) (c : Change) : Feed where
  latest := c :: f.latest
  front := f.front + 1
  front_eq := by rw [f.front_eq, List.length_cons]

def empty : Feed := {}

def oldestHeld (f : Feed) : Nat := f.front - capacity

/-- What comes next at a position, and the position after it. -/
def receive (f : Feed) (position : Nat) : Option (Delivery × Nat) :=
  if position < f.oldestHeld then some (.lagged (f.oldestHeld - position), f.oldestHeld)
  else if position < f.front then
    (f.latest[f.front - 1 - position]?).map fun c => (.change c, position + 1)
  else none

def changes (f : Feed) : List Change := f.latest.reverse

theorem changes_emit (f : Feed) (c : Change) : (f.emit c).changes = f.changes ++ [c] := by
  simp [changes, emit]

theorem length_changes (f : Feed) : f.changes.length = f.front := by
  rw [changes, List.length_reverse, f.front_eq]

theorem receive_of_held {f : Feed} {position : Nat} (h : f.oldestHeld ≤ position) :
    f.receive position = (f.changes[position]?).map fun c => (.change c, position + 1) := by
  by_cases hp : position < f.front
  · have hl : position < f.latest.length := f.front_eq ▸ hp
    rw [receive, if_neg (Nat.not_lt.2 h), if_pos hp, changes, List.getElem?_reverse hl, f.front_eq]
  · have hn : f.changes[position]? = none :=
      List.getElem?_eq_none (by rw [length_changes]; omega)
    simp [receive, Nat.not_lt.2 h, hp, hn]

end Feed

end StageGate
