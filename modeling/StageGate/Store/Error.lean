import StageGate.Key
import StageGate.ObjectName

/-!
# Errors of the store

Why a call to the store fails, and the one place where each failure is worded.
-/

namespace StageGate

/-- The kinds of objects and the keys are those that messages show. -/
inductive StoreError where
  | notFound (kind key : String)
  | alreadyExists (kind key : String)
  /-- A write was based on a version that is not the current one. -/
  | conflict (kind key : String) (expected actual : UInt64)
  | invalidName (kind name : String) (fault : ObjectName.Fault)
  | unavailable (text : String)
deriving DecidableEq, Repr

namespace StoreError

def isNotFound : StoreError → Bool
  | .notFound .. => true
  | _ => false

def isConflict : StoreError → Bool
  | .conflict .. => true
  | _ => false

def message : StoreError → String
  | .notFound kind key => s!"{kind} {key} not found"
  | .alreadyExists kind key => s!"{kind} {key} already exists"
  | .conflict kind key expected actual =>
    s!"conflict updating {kind} {key}: expected resource version {expected}, found {actual}"
  | .invalidName kind name fault =>
    "invalid " ++ kind ++ " name " ++ Text.quoted name ++ ": " ++ fault.reason
  | .unavailable text => s!"object store unavailable: {text}"

end StoreError

/-- Refuses a text that is no name for an object of a kind. -/
def checkName (kind name : String) : Except StoreError Unit :=
  match ObjectName.fault? name with
  | none => .ok ()
  | some fault => .error (.invalidName kind name fault)

end StageGate
