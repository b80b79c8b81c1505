import StageGate.Key
import StageGate.Json.Record
import StageGate.Timestamp.Text

/-!
# Metadata

What every resource carries: its name, when it was created, the version that the store gave it last
and its labels.
-/

namespace StageGate

def Key.toJson {kind : Kind} (key : Key kind) : Json :=
  .object [("namespace", .string key.ns), ("name", .string key.name)]

def Key.ofJson? {kind : Kind} (j : Json) : Option (Key kind) := do
  match ← j.fields? ["namespace", "name"] with
  | [ns, name] => some ⟨← Json.required Json.text? ns, ← Json.required Json.text? name⟩
  | _ => none

structure Metadata where
  ns : String
  name : String
  created : Timestamp
  version : UInt64 := 0
  labels : SortedMap String String := .empty
deriving DecidableEq

def shardLabel : String := "kargo.akuity.io/shard"

namespace Metadata

def key (m : Metadata) (kind : Kind) : Key kind := ⟨m.ns, m.name⟩

def label? (m : Metadata) (name : String) : Option String := m.labels.get? name

def versionJson (version : UInt64) : Json := .nat version.toNat

def version? (j : Json) : Option UInt64 := (j.natBelow? UInt64.size).map UInt64.ofNat

/-- Of two labels with one name the last is kept. -/
def labels? (j : Json) : Option (SortedMap String String) := do
  let entries ← (← j.object?).mapM fun m => m.2.text?.map (m.1, ·)
  some (SortedMap.ofList entries)

def labelsJson (labels : SortedMap String String) : Json :=
  .object (labels.toList.map fun e => (e.1, .string e.2))

def created? (j : Json) : Option Timestamp := do Timestamp.parse? (← j.text?)

def toJson (m : Metadata) : Json :=
  .object [("namespace", .string m.ns), ("name", .string m.name),
    ("creationTimestamp", .string m.created.render), ("resourceVersion", versionJson m.version),
    ("labels", labelsJson m.labels)]

/-- A resource that does not say when it was created was created `now`. -/
def ofJson? (now : Timestamp) (j : Json) : Option Metadata := do
  match ← j.fields? ["namespace", "name", "creationTimestamp", "resourceVersion", "labels"] with
  | [ns, name, created, version, labels] =>
    some {
      ns := ← Json.required Json.text? ns
      name := ← Json.required Json.text? name
      created := ← Json.withDefault created? now created
      version := ← Json.withDefault version? 0 version
      labels := ← Json.withDefault labels? .empty labels }
  | _ => none

end Metadata

end StageGate
