import StageGate.SortedMap

/-!
# Keys

A key names one object of one kind by its namespace and its name. Keys are ordered by namespace,
then by name, both by code point.
-/

namespace StageGate

inductive Kind where
  | promotion
  | stage
  | application
deriving DecidableEq, Repr

structure Key (kind : Kind) where
  ns : String
  name : String
deriving DecidableEq, Repr, Inhabited

abbrev PromotionKey := Key .promotion
abbrev StageKey := Key .stage
abbrev ApplicationKey := Key .application

variable {kind : Kind}

instance : Ord (Key kind) := ⟨compareLex (compareOn Key.ns) (compareOn Key.name)⟩

instance : Std.TransOrd (Key kind) :=
  inferInstanceAs (Std.TransCmp (compareLex (compareOn Key.ns) (compareOn Key.name)))

instance : Std.LawfulEqOrd (Key kind) where
  eq_of_compare {a b} h := by
    have h' : compareLex (compareOn Key.ns) (compareOn Key.name) a b = .eq := h
    rw [compareLex_eq_eq] at h'
    have h₁ : a.ns = b.ns := Std.LawfulEqOrd.eq_of_compare h'.1
    have h₂ : a.name = b.name := Std.LawfulEqOrd.eq_of_compare h'.2
    cases a; cases b; cases h₁; cases h₂; rfl

def Key.display (key : Key kind) : String := s!"{key.ns}/{key.name}"

/-- The form of an application's key in the index of running promotions. -/
def Key.indexValue (key : ApplicationKey) : String := s!"{key.ns}:{key.name}"

end StageGate
