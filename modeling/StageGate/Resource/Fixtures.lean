import StageGate.Resource.Application
import StageGate.Resource.Promotion
import StageGate.Resource.Stage

/-!
# Fixtures

The resources that a store starts out with.
-/

namespace StageGate

structure Fixtures where
  stages : List Stage := []
  applications : List Application := []
  promotions : List Promotion := []
deriving DecidableEq

namespace Fixtures

def toJson (f : Fixtures) : Json :=
  .object [("stages", Json.arrayOf Stage.toJson f.stages),
    ("applications", Json.arrayOf Application.toJson f.applications),
    ("promotions", Json.arrayOf Promotion.toJson f.promotions)]

def ofJson? (now : Timestamp) (j : Json) : Option Fixtures := do
  match ← j.fields? ["stages", "applications", "promotions"] with
  | [stages, applications, promotions] =>
    some ⟨← Json.listField (Stage.ofJson? now) stages,
      ← Json.listField (Application.ofJson? now) applications,
      ← Json.listField (Promotion.ofJson? now) promotions⟩
  | _ => none

end Fixtures

end StageGate
