import StageGate.Text.Combining
import StageGate.Text.Unprintable

/-!
# Quoted text

The form in which messages show a text that may hold anything: between double quotes, with what
could not be seen, and what would end the quotation, written as an escape.
-/

namespace StageGate.Text

/-- A character by its number, in lower case hexadecimal digits. -/
def byNumber (c : Char) : List Char := '\\' :: 'u' :: '\x7b' :: Nat.toDigits 16 c.toNat ++ ['\x7d']

def showChar (c : Char) : List Char :=
  match c with
  | '\x00' => ['\\', '0']
  | '\t' => ['\\', 't']
  | '\r' => ['\\', 'r']
  | '\n' => ['\\', 'n']
  | '\\' => ['\\', '\\']
  | '"' => ['\\', '"']
  | c => if isCombining c || isUnprintable c then byNumber c else [c]

def quoted (s : String) : String := String.ofList ('"' :: s.toList.flatMap showChar ++ ['"'])

example : quoted "a\"'\\\n\x7f" = "\"a\\\"'\\\\\\n\\u\x7b7f\x7d\"" := by decide +kernel

end StageGate.Text
