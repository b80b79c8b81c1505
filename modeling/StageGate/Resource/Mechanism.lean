import StageGate.Key
import StageGate.Json.Record

/-!
# Promotion mechanisms

What a promotion into a stage updates: repositories and applications. An application whose update
names no namespace lies in a default one.
-/

namespace StageGate

structure GitRepoUpdate where
  repoURL : String
  readBranch : String := ""
  writeBranch : String := ""
deriving DecidableEq, Repr

structure SourceUpdate where
  repoURL : String
  chart : String := ""
  updateTargetRevision : Bool := false
deriving DecidableEq, Repr

structure AppUpdate where
  appName : String
  appNamespace : String := ""
  sourceUpdates : List SourceUpdate := []
deriving DecidableEq, Repr

structure Mechanisms where
  gitRepoUpdates : List GitRepoUpdate := []
  appUpdates : List AppUpdate := []
deriving DecidableEq, Repr

def AppUpdate.applicationKey (defaultNamespace : String) (u : AppUpdate) : ApplicationKey :=
  ⟨if u.appNamespace = "" then defaultNamespace else u.appNamespace, u.appName⟩

def Mechanisms.isEmpty (m : Mechanisms) : Bool :=
  m.gitRepoUpdates.isEmpty && m.appUpdates.isEmpty

open Json (required withDefault listField textField text? arrayOf)

def GitRepoUpdate.toJson (u : GitRepoUpdate) : Json :=
  .object [("repoURL", .string u.repoURL), ("readBranch", .string u.readBranch),
    ("writeBranch", .string u.writeBranch)]

def GitRepoUpdate.ofJson? (j : Json) : Option GitRepoUpdate := do
  match ← j.fields? ["repoURL", "readBranch", "writeBranch"] with
  | [repoURL, readBranch, writeBranch] =>
    some ⟨← required text? repoURL, ← textField readBranch, ← textField writeBranch⟩
  | _ => none

def SourceUpdate.toJson (u : SourceUpdate) : Json :=
  .object [("repoURL", .string u.repoURL), ("chart", .string u.chart),
    ("updateTargetRevision", .bool u.updateTargetRevision)]

def SourceUpdate.ofJson? (j : Json) : Option SourceUpdate := do
  match ← j.fields? ["repoURL", "chart", "updateTargetRevision"] with
  | [repoURL, chart, updateTargetRevision] =>
    some ⟨← required text? repoURL, ← textField chart,
      ← withDefault Json.bool? false updateTargetRevision⟩
  | _ => none

def AppUpdate.toJson (u : AppUpdate) : Json :=
  .object [("appName", .string u.appName), ("appNamespace", .string u.appNamespace),
    ("sourceUpdates", arrayOf SourceUpdate.toJson u.sourceUpdates)]

def AppUpdate.ofJson? (j : Json) : Option AppUpdate := do
  match ← j.fields? ["appName", "appNamespace", "sourceUpdates"] with
  | [appName, appNamespace, sourceUpdates] =>
    some ⟨← required text? appName, ← textField appNamespace,
      ← listField SourceUpdate.ofJson? sourceUpdates⟩
  | _ => none

def Mechanisms.toJson (m : Mechanisms) : Json :=
  .object [("gitRepoUpdates", arrayOf GitRepoUpdate.toJson m.gitRepoUpdates),
    ("argoCDAppUpdates", arrayOf AppUpdate.toJson m.appUpdates)]

def Mechanisms.ofJson? (j : Json) : Option Mechanisms := do
  match ← j.fields? ["gitRepoUpdates", "argoCDAppUpdates"] with
  | [gitRepoUpdates, appUpdates] =>
    some ⟨← listField GitRepoUpdate.ofJson? gitRepoUpdates,
      ← listField AppUpdate.ofJson? appUpdates⟩
  | _ => none

end StageGate
