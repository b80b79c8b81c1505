import StageGate.Pattern.Escape
import StageGate.Pattern.Nesting

/-!
# Classes of characters

Reading a class in brackets. It holds characters, ranges and further classes, and operators may
stand between them. The fuel of the recursion is computed from the text and never runs out on it.
-/

namespace StageGate.Pattern

-- ---------------------------------------------------------------------------
-- Members
-- ---------------------------------------------------------------------------

def readAtom (m : Mode) : List Char → Option (Atom × List Char)
  | [] => none
  | '\\' :: s => readEscape m s
  | c :: s => some (.literal c, s)

def Atom.isMember (m : Mode) : Atom → Bool
  | .literal c => m.unicode || c.toNat < 0x80
  | .named => true
  | .assertion => false

def Atom.isRange (m : Mode) : Atom → Atom → Bool
  | .literal a, .literal b =>
    (Atom.literal a).isMember m && (Atom.literal b).isMember m && a.toNat ≤ b.toNat
  | _, _ => false

/-- Passes over a member or a range. A hyphen in front of another one, or of the closing bracket,
makes no range. -/
def readMember (m : Mode) (s : List Char) : Option (List Char) :=
  (readAtom m s).bind fun (a, s) =>
    let s := m.skip s
    match s with
    | '-' :: r =>
      if m.peek r = some ']' ∨ m.peek r = some '-' then
        if a.isMember m then some s else none
      else
        (readAtom m (m.skip r)).bind fun (b, r) => if a.isRange m b then some r else none
    | s => if a.isMember m then some s else none

def asciiClasses : List String :=
  ["alnum", "alpha", "ascii", "blank", "cntrl", "digit", "graph", "lower", "print", "punct",
    "space", "upper", "word", "xdigit"]

/-- A class with the name of a kind of ASCII characters, behind its opening bracket: whether it is
negated, and what follows it. -/
def readAsciiClass? : List Char → Option (Bool × List Char)
  | ':' :: s =>
    let (negated, s) := match s with
      | '^' :: s => (true, s)
      | s => (false, s)
    match s.dropWhile (· != ':') with
    | ':' :: ']' :: rest =>
      if asciiClasses.contains (String.ofList (s.takeWhile (· != ':'))) then some (negated, rest)
      else none
    | _ => none
  | _ => none

-- ---------------------------------------------------------------------------
-- Brackets
-- ---------------------------------------------------------------------------

structure Bracket where
  /-- The depth of what stands before the last operator, if there is one. -/
  left : Option Nat := none
  members : Parts := {}
  /-- Nothing has been read but hyphens, which stand for themselves there. -/
  fresh : Bool := true

namespace Bracket

def add (b : Bracket) (depth : Nat) : Bracket :=
  { b with members := b.members.add depth, fresh := false }

/-- The depth of what is in the brackets. An operator lies above both its sides. -/
def depth (b : Bracket) : Nat :=
  match b.left with
  | some left => max left b.members.depth + 1
  | none => b.members.depth

/-- Makes what has been read the left side of an operator. -/
def operator (b : Bracket) : Bracket := { left := some b.depth, fresh := false }

end Bracket

/-- What follows the start of a class. Without the Unicode mode there is no complement. -/
def openBracket (m : Mode) (s : List Char) : Option (List Char) :=
  match m.skip s with
  | '^' :: s => if m.unicode then some s else none
  | s => some s

/-- Intersection, difference and symmetric difference are written with a doubled character. -/
def isOperator (c : Char) : Bool := c == '&' || c == '-' || c == '~'

/-- Reads on to the end of the class around all the open ones; gives its depth. -/
def readMembers (m : Mode) : Nat → Bracket → List Bracket → List Char → Option (Nat × List Char)
  | 0, _, _, _ => none
  | fuel + 1, b, around, s =>
    match m.skip s with
    | [] => none
    | c :: s =>
      if b.fresh && c == '-' then
        readMembers m fuel { b with members := b.members.add 0 } around s
      else if b.fresh && c == ']' && b.members.count == 0 then
        readMembers m fuel (b.add 0) around s
      else if c == '[' then
        match readAsciiClass? s with
        | some (negated, s) =>
          if negated && !m.unicode then none else readMembers m fuel (b.add 0) around s
        | none => (openBracket m s).bind (readMembers m fuel {} (b :: around))
      else if c == ']' then
        match around with
        | [] => some (b.depth + 1, s)
        | outer :: around => readMembers m fuel (outer.add (b.depth + 1)) around s
      else if isOperator c && s.head? == some c then
        readMembers m fuel b.operator around (s.drop 1)
      else
        (readMember m (c :: s)).bind (readMembers m fuel (b.add 0) around)

def readClass (m : Mode) (s : List Char) : Option (Nat × List Char) :=
  (openBracket m s).bind (readMembers m (s.length + 1) {} [])

end StageGate.Pattern
