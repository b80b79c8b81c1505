import StageGate.Resource.Fixtures
import StageGate.Store.Error
import StageGate.Store.Feed
import StageGate.Store.FieldIndex

/-!
# The store

The store holds the resources. Every write that succeeds gives its object a new version; a write to
a promotion's status has to name the version it is based on. A write that fails changes nothing, so
it has no store to give back.
-/

namespace StageGate

structure Store where
  /-- The namespace of applications that an update does not place in one. -/
  defaultNamespace : String
  lastVersion : UInt64 := 0
  promotions : SortedMap PromotionKey Promotion := .empty
  stages : SortedMap StageKey Stage := .empty
  applications : SortedMap ApplicationKey Application := .empty
  running : FieldIndex := {}
  feed : Feed := .empty
deriving DecidableEq

namespace Store

def nextVersion (s : Store) : UInt64 := s.lastVersion + 1

def promotion? (s : Store) (key : PromotionKey) : Option Promotion := s.promotions.get? key

def stage? (s : Store) (key : StageKey) : Option Stage := s.stages.get? key

def application? (s : Store) (key : ApplicationKey) : Option Application := s.applications.get? key

def promotionList (s : Store) : List Promotion := s.promotions.values

def runningAgainst (s : Store) (app : ApplicationKey) : List Promotion :=
  (s.running.lookup app.indexValue).filterMap s.promotion?

def reindex (s : Store) (key : PromotionKey) : Store :=
  let values :=
    match s.promotion? key with
    | some p => p.indexValues s.defaultNamespace (s.stage? p.stageKey)
    | none => []
  { s with running := s.running.update key values }

def put (s : Store) (p : Promotion) : Promotion × Store :=
  let p := { p with metadata := { p.metadata with version := s.nextVersion } }
  (p, { s with
    lastVersion := s.nextVersion
    promotions := s.promotions.insert p.key p }.reindex p.key)

def emit (s : Store) (c : Change) : Store := { s with feed := s.feed.emit c }

def create (s : Store) (p : Promotion) : Except StoreError (Promotion × Store) := do
  checkName "Promotion" p.metadata.name
  checkName "Namespace" p.metadata.ns
  checkName "Stage" p.spec.stage
  if s.promotions.contains p.key then
    throw (.alreadyExists "Promotion" p.key.display)
  let (p, s) := s.put p
  return (p, s.emit (.promotionCreated p))

/-- Gives back the promotion as it was last. -/
def delete (s : Store) (key : PromotionKey) : Except StoreError (Promotion × Store) :=
  match s.promotion? key with
  | none => .error (.notFound "Promotion" key.display)
  | some p =>
    .ok (p, { s with
      promotions := s.promotions.erase key
      running := s.running.remove key }.emit (.promotionDeleted p))

def updateStatus (s : Store) (key : PromotionKey) (version : UInt64) (status : PromotionStatus) :
    Except StoreError (Promotion × Store) :=
  match s.promotion? key with
  | none => .error (.notFound "Promotion" key.display)
  | some old =>
    if old.metadata.version ≠ version then
      .error (.conflict "Promotion" key.display version old.metadata.version)
    else
      let (new, s) := s.put { old with status }
      .ok (new, s.emit (.promotionUpdated (some old) (some new)))

/-- Creates or replaces a stage, and indexes the promotions into it anew. -/
def upsertStage (s : Store) (stage : Stage) : Except StoreError (Stage × Store) := do
  checkName "Stage" stage.metadata.name
  checkName "Namespace" stage.metadata.ns
  let stage := { stage with metadata := { stage.metadata with version := s.nextVersion } }
  let s := { s with
    lastVersion := s.nextVersion
    stages := s.stages.insert stage.key stage }
  let affected := s.promotionList.filter fun p => p.stageKey = stage.key
  return (stage, (affected.map Promotion.key).foldl reindex s)

/-- Creates or replaces an application; only a replacement is a change to tell of. -/
def upsertApplication (s : Store) (app : Application) :
    Except StoreError (Application × Store) := do
  checkName "Application" app.metadata.name
  checkName "Namespace" app.metadata.ns
  let app := { app with metadata := { app.metadata with version := s.nextVersion } }
  let old := s.application? app.key
  let s := { s with
    lastVersion := s.nextVersion
    applications := s.applications.insert app.key app }
  return (app, if old.isSome then s.emit (.applicationUpdated old (some app)) else s)

/-- The version of a promotion, or zero if there is none. -/
def currentVersion (s : Store) (key : PromotionKey) : UInt64 :=
  ((s.promotion? key).map (·.metadata.version)).getD 0

/-- A store that holds the stages, then the applications, then the promotions of the fixtures; the
first one that is refused is the outcome. -/
def seed (s : Store) (f : Fixtures) : Except StoreError Store := do
  let s ← f.stages.foldlM (fun s stage => Prod.snd <$> s.upsertStage stage) s
  let s ← f.applications.foldlM (fun s app => Prod.snd <$> s.upsertApplication app) s
  f.promotions.foldlM (fun s p => Prod.snd <$> s.create p) s

end Store

end StageGate
