import StageGate.CommandLine.Program
import Std.Time.DateTime.Timestamp

/-!
# The command line

Reads the files that the arguments name, prints what the program writes, and ends as it says. A run
that need not stop when idle reports once its standard input has ended.
-/

namespace StageGate

/-- Whether an error has a number; some calls give the number of an error, some its negative. -/
def isNumber (number code : UInt32) : Bool := code == number || code == 0 - number

def FileError.ofSystem : IO.Error → FileError
  | .noFileOrDirectory .. => .notFound
  | .inappropriateType _ code _ => if isNumber 20 code then .notADirectory else .isDirectory
  | .invalidArgument _ code details =>
    if isNumber 36 code then .nameTooLong else .other details
  | e => .other (toString e)

def readFileText (path : String) : IO FileText := do
  match ← (IO.FS.readBinFile path).toBaseIO with
  | .ok bytes => return .ofBytes bytes
  | .error e => return .error (.ofSystem e)

def readFileTexts (paths : List String) : IO (String → FileText) := do
  let texts ← paths.mapM fun path => return (path, ← readFileText path)
  return fun path => (texts.lookup path).getD (.error .notFound)

def presentTime : IO Timestamp := do
  let t ← Std.Time.Timestamp.now
  return ⟨t.val.second.val, t.val.nano.val.toNat⟩

def awaitEndOfInput : IO Unit := do
  let input ← IO.getStdin
  while !(← input.getLine).isEmpty do
    pure ()

def runCommandLine (arguments : List String) : IO UInt32 := do
  let request := Request.ofArguments arguments
  let read ← readFileTexts request.files
  let ending := Program.answer (← presentTime) read request
  if ending.status = 0 && request.awaitsEnd then awaitEndOfInput
  if !ending.stdout.isEmpty then IO.println ending.stdout
  if !ending.stderr.isEmpty then IO.eprintln ending.stderr
  return ending.status.toUInt32

end StageGate

def main (arguments : List String) : IO UInt32 :=
  StageGate.runCommandLine arguments
