import StageGate.Pattern.Mode
import StageGate.Text.Digits

/-!
# Escapes

What a backslash and the characters behind it stand for in a pattern.
-/

namespace StageGate.Pattern

inductive Atom where
  | literal (c : Char)
  | named
  /-- A condition on the place, which takes no character. -/
  | assertion
deriving DecidableEq, Repr

/-- Reads a number of hexadecimal digits on from the number before them. -/
def readHex (m : Mode) : Nat → Nat → List Char → Option (Nat × List Char)
  | 0, n, s => some (n, s)
  | digits + 1, n, s =>
    match m.skip s with
    | c :: s => (Text.Digits.hexValue c).bind fun v => readHex m digits (16 * n + v) s
    | [] => none

def readNumbered (m : Mode) (digits : Nat) (s : List Char) : Option (Char × List Char) :=
  (readHex m digits 0 s).bind fun (n, s) =>
    if n.isValidChar then some (Char.ofNat n, s) else none

/-- The general categories that one letter names, in either case: other characters, letters, marks,
numbers, punctuation, symbols and separators. -/
def categories : List Char := "cClLmMnNpPsSzZ".toList

/-- Letters with a backslash that stand for one control character. -/
def controlOf? : Char → Option Char
  | 'a' => some '\x07'
  | 't' => some '\t'
  | 'n' => some '\n'
  | 'v' => some '\x0b'
  | 'f' => some '\x0c'
  | 'r' => some '\r'
  | _ => none

/-- Reads what follows a backslash. Without the Unicode mode there is no byte beyond ASCII, and no
complement of a class. With it there is no boundary of a word. -/
def readEscape (m : Mode) : List Char → Option (Atom × List Char)
  | [] => none
  | 'x' :: s => (readNumbered m 2 s).bind fun (c, s) =>
    if m.unicode || c.toNat < 0x80 then some (.literal c, s) else none
  | 'u' :: s => (readNumbered m 4 s).map fun (c, s) => (.literal c, s)
  | 'U' :: s => (readNumbered m 8 s).map fun (c, s) => (.literal c, s)
  | c :: s =>
    if c = 'p' ∨ c = 'P' then
      match m.skip s with
      | c :: s => if m.unicode && categories.contains c then some (.named, s) else none
      | [] => none
    else if ['d', 's', 'w'].contains c then some (.named, s)
    else if ['D', 'S', 'W'].contains c then if m.unicode then some (.named, s) else none
    else if ['A', 'z'].contains c then some (.assertion, s)
    else if ['b', 'B', '<', '>'].contains c then if m.unicode then none else some (.assertion, s)
    else if let some control := controlOf? c then some (.literal control, s)
    else if c.isAlphanum ∨ c.toNat ≥ 0x80 then none
    else some (.literal c, s)

end StageGate.Pattern
