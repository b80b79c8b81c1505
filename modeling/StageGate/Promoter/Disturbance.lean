import StageGate.Store.Write

/-!
# Disturbances

The promoter is not alone with the store: other writers come between its calls, and a call may fail.
What will disturb it is laid down beforehand, in stretches of calls of one kind that are disturbed
alike. Every call uses up one of the first stretch for its kind; where there is none it is
undisturbed. Main statements: with the stretches spelled out as a list for each kind of call, a call
meets the head of its list (`next_eq_head`) and leaves the tail (`upcoming_rest_self`).
-/

namespace StageGate

inductive StoreCall where
  | readPromotion
  | readStage
  | listPromotions
  | listRunning
  | updateStatus
deriving DecidableEq, Repr

inductive Meddling where
  | write (write : Write)
  | delete
  | abort
  /-- Writes the status that the promotion has anyway, which gives it a new version. -/
  | touch
deriving DecidableEq

structure Disturbance where
  before : List Meddling := []
  /-- The call fails, with this text. -/
  outage : Option String := none
  after : List Meddling := []
  /-- Once a promotion has been read, another worker concludes it at its stage. -/
  concludes : Bool := false
deriving DecidableEq

/-- A number of calls of one kind that are disturbed alike, of which there is at least one. -/
structure Stretch where
  call : StoreCall
  disturbance : Disturbance
  /-- How many calls there are besides the first one. -/
  more : Nat := 0
deriving DecidableEq

structure Disturbances where
  stretches : List Stretch := []
deriving DecidableEq

namespace Meddling

def abortedStatus : PromotionStatus := .failed "aborted"

/-- `target` is the promotion that the call is about, if it is about one. -/
def apply (target : Option PromotionKey) (s : Store) (m : Meddling) : Store :=
  match m, target with
  | .write w, _ => s.after w
  | .delete, some key => s.after (.delete key)
  | .abort, some key => s.overwrite key abortedStatus
  | .touch, some key =>
    match s.promotion? key with
    | some p => s.overwrite key p.status
    | none => s
  | _, none => s

end Meddling

def Stretch.rest (s : Stretch) : List Stretch :=
  match s.more with
  | 0 => []
  | more + 1 => [{ s with more }]

def Stretch.toList (s : Stretch) : List Disturbance := List.replicate (s.more + 1) s.disturbance

namespace Disturbances

def next (d : Disturbances) (call : StoreCall) : Disturbance :=
  ((d.stretches.find? (·.call = call)).map (·.disturbance)).getD {}

/-- Takes one call from the first stretch of its kind. -/
def useUp (call : StoreCall) : List Stretch → List Stretch
  | [] => []
  | s :: stretches =>
    if s.call = call then s.rest ++ stretches else s :: useUp call stretches

/-- What disturbs the calls after the next one of a kind. -/
def rest (d : Disturbances) (call : StoreCall) : Disturbances := ⟨useUp call d.stretches⟩

/-- Disturbs a number of calls of a kind, behind those for which something is laid down. -/
def append (d : Disturbances) (call : StoreCall) (disturbance : Disturbance) :
    (calls : Nat) → Disturbances
  | 0 => d
  | more + 1 => ⟨d.stretches ++ [{ call, disturbance, more }]⟩

-- ---------------------------------------------------------------------------
-- The calls of a kind as a list
-- ---------------------------------------------------------------------------

def listOf (call : StoreCall) (stretches : List Stretch) : List Disturbance :=
  stretches.flatMap fun s => if s.call = call then s.toList else []

/-- What is laid down for the calls of a kind, call by call. -/
def upcoming (d : Disturbances) (call : StoreCall) : List Disturbance := listOf call d.stretches

theorem listOf_rest (s : Stretch) (stretches : List Stretch) (call : StoreCall) :
    listOf call (s.rest ++ stretches) =
      (if s.call = call then s.toList.tail else []) ++ listOf call stretches := by
  rcases s with ⟨c, x, _ | more⟩ <;> simp [Stretch.rest, Stretch.toList, listOf]

theorem next_eq_head (d : Disturbances) (call : StoreCall) :
    d.next call = (d.upcoming call).head?.getD {} := by
  rcases d with ⟨stretches⟩
  simp only [next, upcoming, listOf]
  induction stretches with
  | nil => rfl
  | cons s stretches ih =>
    by_cases h : s.call = call
    · simp [h, Stretch.toList, List.replicate_succ]
    · simpa [h] using ih

theorem upcoming_rest_self (d : Disturbances) (call : StoreCall) :
    (d.rest call).upcoming call = (d.upcoming call).tail := by
  rcases d with ⟨stretches⟩
  simp only [rest, upcoming]
  induction stretches with
  | nil => rfl
  | cons s stretches ih =>
    by_cases h : s.call = call
    · rw [useUp, if_pos h, listOf_rest]
      simp [h, listOf, Stretch.toList, List.replicate_succ]
    · rw [useUp, if_neg h]
      simpa [listOf, h] using ih

end Disturbances

end StageGate
