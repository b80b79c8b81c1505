import StageGate.Resource.Metadata

/-!
# Promotions

A promotion asks that a state be promoted into a stage of its namespace. Its phase ends in one of
three terminal phases, after which it is never worked on again.
-/

namespace StageGate

inductive Phase where
  | pending
  | running
  | succeeded
  | failed
  | errored
deriving DecidableEq, Repr, Inhabited

namespace Phase

def isTerminal : Phase → Bool
  | .pending | .running => false
  | .succeeded | .failed | .errored => true

def name : Phase → String
  | .pending => "Pending"
  | .running => "Running"
  | .succeeded => "Succeeded"
  | .failed => "Failed"
  | .errored => "Errored"

def ofName? (s : String) : Option Phase :=
  [pending, running, succeeded, failed, errored].find? fun p => p.name == s

def toJson (p : Phase) : Json := .string p.name

/-- A phase is a name, or an object with that name as its one key and null as its value. -/
def ofJson? : Json → Option Phase
  | .string s => ofName? s
  | .object [(s, .null)] => ofName? s
  | _ => none

end Phase

/-- Which state to promote into which stage. -/
structure PromotionSpec where
  stage : String
  state : String
deriving DecidableEq, Repr

structure PromotionStatus where
  phase : Phase := .pending
  error : Option String := none
deriving DecidableEq, Repr, Inhabited

structure Promotion where
  metadata : Metadata
  spec : PromotionSpec
  status : PromotionStatus := {}
deriving DecidableEq

def PromotionSpec.toJson (s : PromotionSpec) : Json :=
  .object [("stage", .string s.stage), ("state", .string s.state)]

def PromotionSpec.ofJson? (j : Json) : Option PromotionSpec := do
  match ← j.fields? ["stage", "state"] with
  | [stage, state] =>
    some ⟨← Json.required Json.text? stage, ← Json.required Json.text? state⟩
  | _ => none

namespace PromotionStatus

def ofPhase (phase : Phase) : PromotionStatus := { phase }

def failed (error : String) : PromotionStatus := { phase := .failed, error := some error }

def errored (error : String) : PromotionStatus := { phase := .errored, error := some error }

def toJson (s : PromotionStatus) : Json :=
  .object (("phase", s.phase.toJson) :: Json.someMember "error" .string s.error)

def ofJson? (j : Json) : Option PromotionStatus := do
  match ← j.fields? ["phase", "error"] with
  | [phase, error] =>
    some ⟨← Json.withDefault Phase.ofJson? .pending phase, ← Json.optional Json.text? error⟩
  | _ => none

end PromotionStatus

namespace Promotion

def key (p : Promotion) : PromotionKey := p.metadata.key .promotion

/-- The stage that the promotion is for: it lies in the promotion's own namespace. -/
def stageKey (p : Promotion) : StageKey := ⟨p.metadata.ns, p.spec.stage⟩

def phase (p : Promotion) : Phase := p.status.phase

def isTerminal (p : Promotion) : Bool := p.phase.isTerminal

def toJson (p : Promotion) : Json :=
  .object [("metadata", p.metadata.toJson), ("spec", p.spec.toJson), ("status", p.status.toJson)]

def ofJson? (now : Timestamp) (j : Json) : Option Promotion := do
  match ← j.fields? ["metadata", "spec", "status"] with
  | [metadata, spec, status] =>
    some {
      metadata := ← Json.required (Metadata.ofJson? now) metadata
      spec := ← Json.required PromotionSpec.ofJson? spec
      status := ← Json.withDefault PromotionStatus.ofJson? {} status }
  | _ => none

end Promotion

end StageGate
