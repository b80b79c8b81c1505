import StageGate.Json.Record

/-!
# Stage states

A state is a named set of commits, images and charts that can be promoted together.
-/

namespace StageGate

structure GitCommit where
  repoURL : String
  id : String := ""
  branch : String := ""
deriving DecidableEq, Repr

structure Image where
  repoURL : String
  tag : String
deriving DecidableEq, Repr

structure Chart where
  repoURL : String
  name : String
  version : String
deriving DecidableEq, Repr

structure StageState where
  id : String
  commits : List GitCommit := []
  images : List Image := []
  charts : List Chart := []
deriving DecidableEq, Repr

open Json (required listField textField text? arrayOf)

def GitCommit.toJson (c : GitCommit) : Json :=
  .object [("repoURL", .string c.repoURL), ("id", .string c.id), ("branch", .string c.branch)]

def GitCommit.ofJson? (j : Json) : Option GitCommit := do
  match ← j.fields? ["repoURL", "id", "branch"] with
  | [repoURL, id, branch] => some ⟨← required text? repoURL, ← textField id, ← textField branch⟩
  | _ => none

def Image.toJson (i : Image) : Json :=
  .object [("repoURL", .string i.repoURL), ("tag", .string i.tag)]

def Image.ofJson? (j : Json) : Option Image := do
  match ← j.fields? ["repoURL", "tag"] with
  | [repoURL, tag] => some ⟨← required text? repoURL, ← required text? tag⟩
  | _ => none

def Chart.toJson (c : Chart) : Json :=
  .object [("repoURL", .string c.repoURL), ("name", .string c.name),
    ("version", .string c.version)]

def Chart.ofJson? (j : Json) : Option Chart := do
  match ← j.fields? ["repoURL", "name", "version"] with
  | [repoURL, name, version] =>
    some ⟨← required text? repoURL, ← required text? name, ← required text? version⟩
  | _ => none

def StageState.toJson (s : StageState) : Json :=
  .object [("id", .string s.id), ("commits", arrayOf GitCommit.toJson s.commits),
    ("images", arrayOf Image.toJson s.images), ("charts", arrayOf Chart.toJson s.charts)]

def StageState.ofJson? (j : Json) : Option StageState := do
  match ← j.fields? ["id", "commits", "images", "charts"] with
  | [id, commits, images, charts] =>
    some ⟨← required text? id, ← listField GitCommit.ofJson? commits,
      ← listField Image.ofJson? images, ← listField Chart.ofJson? charts⟩
  | _ => none

end StageGate
