import StageGate.Text.Blank

/-!
# Modes of a pattern

How the text of a pattern is taken at a place, and the flags that change it. In the verbose mode
blanks and comments are passed over.
-/

namespace StageGate.Pattern

structure Mode where
  /-- Blanks count for nothing, and neither do comments, from `#` to the end of the line. -/
  verbose : Bool := false
  /-- Classes are classes of all characters. Without it they are classes of bytes, and nothing that
  stands for a part of a character is allowed. -/
  unicode : Bool := true
deriving DecidableEq, Repr

-- ---------------------------------------------------------------------------
-- Blanks and comments
-- ---------------------------------------------------------------------------

/-- What follows the blanks and comments at the front; `comment` says whether one has begun. -/
def passOver (comment : Bool) : List Char → List Char
  | [] => []
  | c :: s =>
    if comment then passOver (c != '\n') s
    else if Text.isBlank c then passOver false s
    else if c = '#' then passOver true s
    else c :: s

def Mode.skip (m : Mode) (s : List Char) : List Char :=
  if m.verbose then passOver false s else s

/-- The character that a range looks at to see whether it goes on. In the verbose mode that is one
beyond the blanks, and beyond one `#` and the blanks after it, if there is one. -/
def Mode.peek (m : Mode) (s : List Char) : Option Char :=
  if m.verbose then
    let ahead := match s.dropWhile Text.isBlank with
      | '#' :: s => s.dropWhile Text.isBlank
      | s => s
    ahead.head? <|> s.head?
  else s.head?

-- ---------------------------------------------------------------------------
-- Flags
-- ---------------------------------------------------------------------------

/-- Flags are different letters. There may be one hyphen among them, which is not the last. -/
def areFlags (s : List Char) : Bool :=
  s.all (fun c => ['i', 'm', 's', 'U', 'u', 'R', 'x', '-'].contains c && s.count c == 1) &&
    s.getLast? != some '-'

/-- What flags set the one of a letter to; those behind the hyphen are cleared. -/
def flagValue? (letter : Char) (flags : List Char) : Option Bool :=
  if flags.contains letter then some ((flags.takeWhile (· != '-')).contains letter) else none

def Mode.set (m : Mode) (flags : List Char) : Mode where
  verbose := (flagValue? 'x' flags).getD m.verbose
  unicode := (flagValue? 'u' flags).getD m.unicode

end StageGate.Pattern
