import StageGate.Json.Record

/-!
# Subscriptions

What a stage takes its states from: repositories, or other stages that come before it.
-/

namespace StageGate

structure GitSubscription where
  repoURL : String
  branch : String := ""
deriving DecidableEq, Repr

structure ImageSubscription where
  repoURL : String
  updateStrategy : String := ""
  semverConstraint : String := ""
  allowTags : String := ""
  ignoreTags : List String := []
  platform : String := ""
deriving DecidableEq, Repr

structure ChartSubscription where
  registryURL : String
  name : String
  semverConstraint : String := ""
deriving DecidableEq, Repr

structure RepoSubscriptions where
  git : List GitSubscription := []
  images : List ImageSubscription := []
  charts : List ChartSubscription := []
deriving DecidableEq, Repr

structure StageSubscription where
  name : String
deriving DecidableEq, Repr

structure Subscriptions where
  repos : Option RepoSubscriptions := none
  stages : List StageSubscription := []
deriving DecidableEq, Repr

open Json (required withDefault optional listField textField text? list? arrayOf someMember)

def GitSubscription.toJson (s : GitSubscription) : Json :=
  .object [("repoURL", .string s.repoURL), ("branch", .string s.branch)]

def GitSubscription.ofJson? (j : Json) : Option GitSubscription := do
  match ← j.fields? ["repoURL", "branch"] with
  | [repoURL, branch] => some ⟨← required text? repoURL, ← textField branch⟩
  | _ => none

def ImageSubscription.toJson (s : ImageSubscription) : Json :=
  .object [("repoURL", .string s.repoURL), ("updateStrategy", .string s.updateStrategy),
    ("semverConstraint", .string s.semverConstraint), ("allowTags", .string s.allowTags),
    ("ignoreTags", arrayOf .string s.ignoreTags), ("platform", .string s.platform)]

def ImageSubscription.ofJson? (j : Json) : Option ImageSubscription := do
  match ← j.fields? ["repoURL", "updateStrategy", "semverConstraint", "allowTags", "ignoreTags",
      "platform"] with
  | [repoURL, updateStrategy, semverConstraint, allowTags, ignoreTags, platform] =>
    some ⟨← required text? repoURL, ← textField updateStrategy, ← textField semverConstraint,
      ← textField allowTags, ← listField text? ignoreTags, ← textField platform⟩
  | _ => none

def ChartSubscription.toJson (s : ChartSubscription) : Json :=
  .object [("registryURL", .string s.registryURL), ("name", .string s.name),
    ("semverConstraint", .string s.semverConstraint)]

def ChartSubscription.ofJson? (j : Json) : Option ChartSubscription := do
  match ← j.fields? ["registryURL", "name", "semverConstraint"] with
  | [registryURL, name, semverConstraint] =>
    some ⟨← required text? registryURL, ← required text? name, ← textField semverConstraint⟩
  | _ => none

def RepoSubscriptions.toJson (s : RepoSubscriptions) : Json :=
  .object [("git", arrayOf GitSubscription.toJson s.git),
    ("images", arrayOf ImageSubscription.toJson s.images),
    ("charts", arrayOf ChartSubscription.toJson s.charts)]

def RepoSubscriptions.ofJson? (j : Json) : Option RepoSubscriptions := do
  match ← j.fields? ["git", "images", "charts"] with
  | [git, images, charts] =>
    some ⟨← listField GitSubscription.ofJson? git, ← listField ImageSubscription.ofJson? images,
      ← listField ChartSubscription.ofJson? charts⟩
  | _ => none

def StageSubscription.toJson (s : StageSubscription) : Json := .object [("name", .string s.name)]

def StageSubscription.ofJson? (j : Json) : Option StageSubscription := do
  match ← j.fields? ["name"] with
  | [name] => some ⟨← required text? name⟩
  | _ => none

def Subscriptions.toJson (s : Subscriptions) : Json :=
  .object (someMember "repos" RepoSubscriptions.toJson s.repos ++
    [("upstreamStages", arrayOf StageSubscription.toJson s.stages)])

def Subscriptions.ofJson? (j : Json) : Option Subscriptions := do
  match ← j.fields? ["repos", "upstreamStages"] with
  | [repos, stages] =>
    some ⟨← optional RepoSubscriptions.ofJson? repos,
      ← listField StageSubscription.ofJson? stages⟩
  | _ => none

end StageGate
