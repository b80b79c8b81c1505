import StageGate.Resource.Mechanism
import StageGate.Resource.Metadata
import StageGate.Resource.StageState
import StageGate.Resource.Subscription

/-!
# Stages

A stage says what it subscribes to, how a state is promoted into it, and which states are available
to it.
-/

namespace StageGate

structure StageSpec where
  subscriptions : Option Subscriptions := none
  mechanisms : Option Mechanisms := none
deriving DecidableEq, Repr

structure StageStatus where
  availableStates : List StageState := []
  currentState : Option StageState := none
  history : List StageState := []
  error : String := ""
deriving DecidableEq, Repr

structure Stage where
  metadata : Metadata
  spec : StageSpec := {}
  status : StageStatus := {}
deriving DecidableEq

open Json (withDefault optional listField textField arrayOf someMember)

def StageSpec.toJson (s : StageSpec) : Json :=
  .object (someMember "subscriptions" Subscriptions.toJson s.subscriptions ++
    someMember "promotionMechanisms" Mechanisms.toJson s.mechanisms)

def StageSpec.ofJson? (j : Json) : Option StageSpec := do
  match ← j.fields? ["subscriptions", "promotionMechanisms"] with
  | [subscriptions, mechanisms] =>
    some ⟨← optional Subscriptions.ofJson? subscriptions, ← optional Mechanisms.ofJson? mechanisms⟩
  | _ => none

/-- An empty error is not written. -/
def StageStatus.toJson (s : StageStatus) : Json :=
  .object (("availableStates", arrayOf StageState.toJson s.availableStates) ::
    someMember "currentState" StageState.toJson s.currentState ++
    ("history", arrayOf StageState.toJson s.history) ::
    someMember "error" .string (if s.error = "" then none else some s.error))

def StageStatus.ofJson? (j : Json) : Option StageStatus := do
  match ← j.fields? ["availableStates", "currentState", "history", "error"] with
  | [availableStates, currentState, history, error] =>
    some ⟨← listField StageState.ofJson? availableStates,
      ← optional StageState.ofJson? currentState, ← listField StageState.ofJson? history,
      ← textField error⟩
  | _ => none

namespace Stage

def key (s : Stage) : StageKey := s.metadata.key .stage

/-- The applications that a promotion into the stage updates, in the order of the updates. -/
def applications (defaultNamespace : String) (s : Stage) : List ApplicationKey :=
  match s.spec.mechanisms with
  | some m => m.appUpdates.map (·.applicationKey defaultNamespace)
  | none => []

def availableState? (s : Stage) (id : String) : Option StageState :=
  s.status.availableStates.find? fun state => state.id == id

def toJson (s : Stage) : Json :=
  .object [("metadata", s.metadata.toJson), ("spec", s.spec.toJson), ("status", s.status.toJson)]

def ofJson? (now : Timestamp) (j : Json) : Option Stage := do
  match ← j.fields? ["metadata", "spec", "status"] with
  | [metadata, spec, status] =>
    some ⟨← Json.required (Metadata.ofJson? now) metadata, ← withDefault StageSpec.ofJson? {} spec,
      ← withDefault StageStatus.ofJson? {} status⟩
  | _ => none

end Stage

end StageGate
