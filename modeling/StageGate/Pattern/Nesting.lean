/-!
# Nesting

How deep the parts of a pattern lie. Parts that are put together lie one level above the deepest of
them, but a single part stands for itself.
-/

namespace StageGate.Pattern

structure Parts where
  count : Nat := 0
  deepest : Nat := 0
deriving DecidableEq, Repr

namespace Parts

def add (p : Parts) (depth : Nat) : Parts := ⟨p.count + 1, max p.deepest depth⟩

def depth (p : Parts) : Nat := if p.count ≤ 1 then p.deepest else p.deepest + 1

end Parts

end StageGate.Pattern
