import StageGate.CommandLine.Arguments
import StageGate.CommandLine.LogFilter
import StageGate.CommandLine.Report
import StageGate.Json.Writer

/-!
# The program

What the program writes and how it ends, as a function of its arguments and of the files it reads.
-/

namespace StageGate

/-- The files that an answer to a request depends on. -/
def Request.files : Request → List String
  | .command (.run config fixtures _) => [config, fixtures]
  | .command (.checkConfig config) => [config]
  | _ => []

/-- Whether a successful answer is held back until the user ends the program. -/
def Request.awaitsEnd : Request → Bool
  | .command (.run _ _ untilIdle) => !untilIdle
  | _ => false

structure Ending where
  status : Nat
  stdout : String := ""
  stderr : String := ""
deriving DecidableEq, Repr

namespace Program

def versionText : String := "promoctl 0.1.0"

def helpLines : Topic → List String
  | .program =>
    ["A GitOps promotion controller with per-stage priority scheduling", "",
      "Usage: promoctl <COMMAND>", "", "Commands:",
      "  run           Run the controller against Stages and Promotions loaded from a file",
      "  check-config  Validate a configuration file and print the effective settings",
      "  help          Print this message or the help of the given subcommand(s)", "",
      "Options:", "  -h, --help     Print help", "  -V, --version  Print version"]
  | .run =>
    ["Run the controller against Stages and Promotions loaded from a file", "",
      "Usage: promoctl run [OPTIONS] --fixtures <FIXTURES>", "", "Options:",
      "      --config <CONFIG>      Path to configuration file [default: ./promoctl.json]",
      "      --fixtures <FIXTURES>  Path to a JSON file of stages, applications and promotions",
      "      --until-idle           Stop once no work remains instead of waiting for Ctrl-C",
      "  -h, --help                 Print help"]
  | .checkConfig =>
    ["Validate a configuration file and print the effective settings", "",
      "Usage: promoctl check-config [OPTIONS]", "", "Options:",
      "      --config <CONFIG>  Path to configuration file [default: ./promoctl.json]",
      "  -h, --help             Print help"]
  | .help =>
    ["Print this message or the help of the given subcommand(s)", "",
      "Usage: promoctl help [COMMAND]...", "", "Arguments:",
      "  [COMMAND]...  Print help for the subcommand(s)"]

def helpText (topic : Topic) : String := "\n".intercalate (helpLines topic)

def loadFixtures (now : Timestamp) (path : String) (text : FileText) :
    Except CommandError Fixtures :=
  match text with
  | .error cause => .error ⟨.io, "Failed to read " ++ path ++ ": " ++ cause.message⟩
  | .ok text =>
    match (Json.parse? text).bind (Fixtures.ofJson? now) with
    | some f => .ok f
    | none => .error ⟨.io, "Invalid JSON in " ++ path ++ ": these are no fixtures"⟩

def loadSettings (path : String) (text : FileText) : Except CommandError Settings :=
  (Settings.load path text).mapError .ofSettings

def carryOut (now : Timestamp) (read : String → FileText) : Command → Except CommandError Json
  | .checkConfig config => do
    let settings ← loadSettings config (read config)
    return .object [("valid", .bool true), ("config", settings.toJson)]
  | .run config fixtures _ => do
    let settings ← loadSettings config (read config)
    if !LogFilter.isValid settings.logFilter then
      throw ⟨.config, LogFilter.invalidMessage settings.logFilter⟩
    let f ← loadFixtures now fixtures (read fixtures)
    return (← Report.execute settings f).toJson

/-- `now` is the time of creation of resources that do not give one. -/
def answer (now : Timestamp) (read : String → FileText) : Request → Ending
  | .unusable =>
    { status := 2, stderr := "error: unusable arguments\n\nFor more information, try '--help'." }
  | .version => { status := 0, stdout := versionText }
  | .help topic => { status := 0, stdout := helpText topic }
  | .command c =>
    match carryOut now read c with
    | .ok data =>
      { status := 0
        stdout := (Json.object [("status", .string "ok"), ("data", data)]).sorted.render }
    | .error e => { status := 1, stderr := e.display }

def run (now : Timestamp) (read : String → FileText) (arguments : List String) : Ending :=
  answer now read (.ofArguments arguments)

end Program

end StageGate
