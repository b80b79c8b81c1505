import StageGate.Resource.Metadata

/-!
# Applications

An application that promotions update, as far as its health and its state of synchronisation.
-/

namespace StageGate

structure Application where
  metadata : Metadata
  health : String := ""
  syncStatus : String := ""
deriving DecidableEq

namespace Application

def key (a : Application) : ApplicationKey := a.metadata.key .application

def toJson (a : Application) : Json :=
  .object [("metadata", a.metadata.toJson), ("health", .string a.health),
    ("syncStatus", .string a.syncStatus)]

def ofJson? (now : Timestamp) (j : Json) : Option Application := do
  match ← j.fields? ["metadata", "health", "syncStatus"] with
  | [metadata, health, syncStatus] =>
    some ⟨← Json.required (Metadata.ofJson? now) metadata, ← Json.textField health,
      ← Json.textField syncStatus⟩
  | _ => none

end Application

end StageGate
