import StageGate.Pattern.Mode
import StageGate.Text.Alphanumeric

/-!
# Groups

What an opening parenthesis begins in a pattern. There is no looking around.
-/

namespace StageGate.Pattern

inductive Opening where
  /-- A group, which may have a name, and in which the flags hold. -/
  | group (name : Option (List Char)) (flags : List Char)
  /-- Flags that hold up to the end of the group around them. -/
  | setting (flags : List Char)
deriving DecidableEq, Repr

def isGroupName : List Char → Bool
  | [] => false
  | c :: s =>
    (c == '_' || Text.isAlphabetic c) &&
      s.all fun c => ['_', '.', '[', ']'].contains c || Text.isAlphanumeric c

def readName (s : List Char) : Option (Opening × List Char) :=
  match s.dropWhile (· != '>') with
  | '>' :: rest =>
    let name := s.takeWhile (· != '>')
    if isGroupName name then some (.group (some name) [], rest) else none
  | _ => none

/-- Flags, and with a colon behind them a group. A setting sets at least one flag. -/
def readFlags (s : List Char) : Option (Opening × List Char) :=
  let flags := s.takeWhile fun c => c != ':' && c != ')'
  if areFlags flags then
    match s.drop flags.length with
    | ':' :: rest => some (.group none flags, rest)
    | ')' :: rest => if flags.isEmpty then none else some (.setting flags, rest)
    | _ => none
  else none

def readOpening (m : Mode) (s : List Char) : Option (Opening × List Char) :=
  match m.skip s with
  | '?' :: 'P' :: '<' :: s => readName s
  | '?' :: '<' :: s => readName s
  | '?' :: s => readFlags s
  | s => some (.group none [], s)

end StageGate.Pattern
