import StageGate.Pattern.CharClass
import StageGate.Pattern.Group

/-!
# Patterns

Which texts are patterns: regular expressions whose parts all have a meaning for an automaton, and
that are not nested too deep. A text is read from left to right with the groups that are open at
each place. There is no counted repetition. The fuel of the recursion is computed from the text and
never runs out on it.
-/

namespace StageGate.Pattern

/-- What has been read of a group, or of the whole pattern. -/
structure Scope where
  branches : Parts := {}
  /-- The items of the open branch, but for the last one if it can be repeated. -/
  items : Parts := {}
  /-- The depth of the last item, if it can be repeated. -/
  last : Option Nat := none
deriving DecidableEq, Repr

namespace Scope

def allItems (s : Scope) : Parts :=
  match s.last with
  | some depth => s.items.add depth
  | none => s.items

def add (s : Scope) (depth : Nat) : Scope := { s with items := s.allItems, last := some depth }

/-- Adds a setting of flags, which cannot be repeated. -/
def addSetting (s : Scope) : Scope := { s with items := s.allItems.add 0, last := none }

/-- Repeats the last item. -/
def repeat? (s : Scope) : Option Scope :=
  s.last.map fun depth => { s with last := some (depth + 1) }

def allBranches (s : Scope) : Parts := s.branches.add s.allItems.depth

def endBranch (s : Scope) : Scope := { branches := s.allBranches }

def depth (s : Scope) : Nat := s.allBranches.depth

end Scope

structure Progress where
  mode : Mode := {}
  /-- The names of groups, which are all different. -/
  names : List (List Char) := []
  scope : Scope := {}
  /-- The open groups from the inside out: what was read before them, and the mode there. -/
  around : List (Mode × Scope) := []
deriving DecidableEq, Repr

namespace Progress

def add (p : Progress) (depth : Nat) : Progress := { p with scope := p.scope.add depth }

def begin? (p : Progress) : Opening → Option Progress
  | .setting flags => some { p with mode := p.mode.set flags, scope := p.scope.addSetting }
  | .group name flags =>
    if name.any p.names.contains then none
    else
      some {
        mode := p.mode.set flags
        names := name.toList ++ p.names
        scope := {}
        around := (p.mode, p.scope) :: p.around }

def end? (p : Progress) : Option Progress :=
  match p.around with
  | [] => none
  | (mode, scope) :: around =>
    some { p with mode, around, scope := scope.add (p.scope.depth + 1) }

/-- Reads one part of a pattern, of which `c` is the first character. -/
def step? (p : Progress) (c : Char) (s : List Char) : Option (Progress × List Char) :=
  match c with
  | '(' => (readOpening p.mode s).bind fun (o, s) => (p.begin? o).map (·, s)
  | ')' => p.end?.map (·, s)
  | '|' => some ({ p with scope := p.scope.endBranch }, s)
  | '[' => (readClass p.mode s).map fun (depth, s) => (p.add depth, s)
  | '\\' => (readEscape p.mode s).map fun (_, s) => (p.add 0, s)
  | '.' => if p.mode.unicode then some (p.add 0, s) else none
  | '\x7b' => none
  | c =>
    if ['*', '+', '?'].contains c then
      p.scope.repeat?.map fun scope =>
        ({ p with scope }, match s with | '?' :: s => s | s => s)
    else some (p.add 0, s)

def readAll : Nat → Progress → List Char → Option Progress
  | 0, _, _ => none
  | fuel + 1, p, s =>
    match p.mode.skip s with
    | [] => some p
    | c :: s => (p.step? c s).bind fun (p, s) => readAll fuel p s

end Progress

def maxDepth : Nat := 250

end Pattern

def isPattern (s : List Char) : Bool :=
  match Pattern.Progress.readAll (s.length + 1) {} s with
  | some p => p.around.isEmpty && p.scope.depth ≤ Pattern.maxDepth
  | none => false

end StageGate
