/-!
# Text from files

What reading a file as text comes to: its text, or the cause for which there is none.
-/

namespace StageGate

inductive FileError where
  | notFound
  | isDirectory
  /-- There is a file where a directory would have to be. -/
  | notADirectory
  | nameTooLong
  | notUtf8
  | other (text : String)
deriving DecidableEq, Repr

def FileError.message : FileError → String
  | .notFound => "No such file or directory (os error 2)"
  | .isDirectory => "Is a directory (os error 21)"
  | .notADirectory => "Not a directory (os error 20)"
  | .nameTooLong => "File name too long (os error 36)"
  | .notUtf8 => "stream did not contain valid UTF-8"
  | .other text => text

abbrev FileText := Except FileError String

/-- Bytes are a text if they are well-formed UTF-8. -/
def FileText.ofBytes (bytes : ByteArray) : FileText :=
  match String.fromUTF8? bytes with
  | some s => .ok s
  | none => .error .notUtf8

end StageGate
