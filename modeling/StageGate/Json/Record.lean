import StageGate.Json.Basic

/-!
# Records in JSON

A record of named fields is read from an object, where other members are passed over and a field
may not come twice, or from an array that gives the fields in their order. At the end of such an
array, and anywhere in an object, a field with a default may be left out.
-/

namespace StageGate.Json

/-- The value of a field in an object, if it is there; nothing at all if it is there twice. -/
def field? (members : List (String × Json)) (name : String) : Option (Option Json) :=
  match members.filter fun m => m.1 == name with
  | [] => some none
  | [m] => some (some m.2)
  | _ => none

/-- The fields of a record in the order of their names. -/
def fields? (names : List String) : Json → Option (List (Option Json))
  | .object members => names.mapM (field? members)
  | .array items =>
    if items.length ≤ names.length then
      some (items.map some ++ List.replicate (names.length - items.length) none)
    else none
  | _ => none

variable {α : Type}

def required (read : Json → Option α) : Option Json → Option α
  | some j => read j
  | none => none

def withDefault (read : Json → Option α) (default : α) : Option Json → Option α
  | some j => read j
  | none => some default

def optional (read : Json → Option α) : Option Json → Option (Option α)
  | none | some .null => some none
  | some j => (read j).map some

def list? (read : Json → Option α) : Json → Option (List α)
  | .array items => items.mapM read
  | _ => none

def listField (read : Json → Option α) : Option Json → Option (List α) :=
  withDefault (list? read) []

def textField : Option Json → Option String := withDefault text? ""

/-- A member that is written only where there is a value. -/
def someMember (name : String) (write : α → Json) : Option α → List (String × Json)
  | some a => [(name, write a)]
  | none => []

def arrayOf (write : α → Json) (items : List α) : Json := .array (items.map write)

end StageGate.Json
