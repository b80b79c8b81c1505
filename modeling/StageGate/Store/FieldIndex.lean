import StageGate.Resource.Promotion
import StageGate.Resource.Stage

/-!
# The index of running promotions

An index leads from a value to the promotions it was given for. It also keeps the values of each
promotion, so that they can be withdrawn; no value is kept once no promotion has it.
-/

namespace StageGate

abbrev SortedSet (κ : Type) [Ord κ] := SortedMap κ Unit

def sortedDistinct {κ : Type} [Ord κ] [Std.TransOrd κ] (items : List κ) : List κ :=
  (SortedMap.ofList (items.map fun k => (k, ()))).keys

structure FieldIndex where
  byValue : SortedMap String (SortedSet PromotionKey) := .empty
  valuesOf : SortedMap PromotionKey (List String) := .empty
deriving DecidableEq

namespace FieldIndex

/-- Takes a promotion from a value, and the value with it if that was its last promotion. -/
def withdraw (key : PromotionKey) (byValue : SortedMap String (SortedSet PromotionKey))
    (value : String) : SortedMap String (SortedSet PromotionKey) :=
  match byValue.get? value with
  | none => byValue
  | some keys =>
    if (keys.erase key).toList.isEmpty then byValue.erase value
    else byValue.insert value (keys.erase key)

def enter (key : PromotionKey) (byValue : SortedMap String (SortedSet PromotionKey))
    (value : String) : SortedMap String (SortedSet PromotionKey) :=
  byValue.insert value (((byValue.get? value).getD .empty).insert key ())

def remove (i : FieldIndex) (key : PromotionKey) : FieldIndex :=
  match i.valuesOf.get? key with
  | none => i
  | some values => ⟨values.foldl (withdraw key) i.byValue, i.valuesOf.erase key⟩

/-- Gives a promotion these values in place of those it had. -/
def update (i : FieldIndex) (key : PromotionKey) (values : List String) : FieldIndex :=
  let i := i.remove key
  if values.isEmpty then i
  else ⟨values.foldl (enter key) i.byValue, i.valuesOf.insert key values⟩

def lookup (i : FieldIndex) (value : String) : List PromotionKey :=
  ((i.byValue.get? value).getD .empty).keys

end FieldIndex

/-- The values under which a promotion is indexed: the applications that its stage updates, while it
is running. A promotion whose stage is unknown has none. -/
def Promotion.indexValues (defaultNamespace : String) (stage? : Option Stage) (p : Promotion) :
    List String :=
  match p.phase, stage? with
  | .running, some stage =>
    sortedDistinct ((stage.applications defaultNamespace).map Key.indexValue)
  | _, _ => []

end StageGate
