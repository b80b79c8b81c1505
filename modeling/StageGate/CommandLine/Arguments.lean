/-!
# Arguments

What the arguments of the program ask for. They are read from left to right: the first fault makes
them unusable, and a call for help that comes before it is heeded.
-/

namespace StageGate

inductive Command where
  /-- Runs the promoter over the resources of a file. -/
  | run (config fixtures : String) (untilIdle : Bool)
  | checkConfig (config : String)
deriving DecidableEq, Repr

inductive Topic where
  | program
  | run
  | checkConfig
  | help
deriving DecidableEq, Repr

inductive Request where
  | command (command : Command)
  | help (topic : Topic)
  | version
  /-- The arguments make no sense. -/
  | unusable
deriving DecidableEq, Repr

namespace Request

def defaultConfig : String := "./promoctl.json"

structure Given where
  config : Option String := none
  fixtures : Option String := none
  untilIdle : Bool := false

inductive ValueOption where
  | config
  | fixtures
deriving DecidableEq

/-- Sets an option, once and not to an empty value. -/
def Given.set (g : Given) (o : ValueOption) (value : String) : Option Given :=
  if value = "" then none
  else
    match o with
    | .config => if g.config.isSome then none else some { g with config := some value }
    | .fixtures => if g.fixtures.isSome then none else some { g with fixtures := some value }

/-- Whether an argument stands for itself, and not for an option. -/
def isValue (arg : String) : Bool := !arg.startsWith "-" || arg == "-"

/-- The value of an argument that gives an option its value after an equals sign. -/
def assigned? (name arg : String) : Option String :=
  if arg.startsWith (name ++ "=") then some (String.ofList (arg.toList.drop (name.length + 1)))
  else none

def isHelp (arg : String) : Bool :=
  arg == "--help" || (arg.startsWith "-h" && !arg.startsWith "--")

/-- Reads the options of a command. `topic` says which one it is; only `run` has fixtures and can
stop when idle. `complete` makes a request of them, at the end. -/
def readOptions (topic : Topic) (complete : Given → Request) : Given → List String → Request
  | g, [] => complete g
  | g, ["--"] => complete g
  | g, arg :: rest =>
    let value := fun (o : ValueOption) =>
      match rest with
      | v :: rest =>
        if isValue v then
          match g.set o v with
          | some g => readOptions topic complete g rest
          | none => .unusable
        else .unusable
      | [] => .unusable
    let assign := fun (o : ValueOption) (v : String) =>
      match g.set o v with
      | some g => readOptions topic complete g rest
      | none => .unusable
    if isHelp arg then .help topic
    else if arg = "--config" then value .config
    else if let some v := assigned? "--config" arg then assign .config v
    else if topic = .run ∧ arg = "--fixtures" then value .fixtures
    else if topic = .run then
      if let some v := assigned? "--fixtures" arg then assign .fixtures v
      else if arg = "--until-idle" ∧ !g.untilIdle then
        readOptions topic complete { g with untilIdle := true } rest
      else .unusable
    else .unusable

def completeRun (g : Given) : Request :=
  match g.fixtures with
  | some fixtures => .command (.run (g.config.getD defaultConfig) fixtures g.untilIdle)
  | none => .unusable

def completeCheck (g : Given) : Request :=
  .command (.checkConfig (g.config.getD defaultConfig))

def helpFor : List String → Request
  | [] => .help .program
  | ["run"] => .help .run
  | ["check-config"] => .help .checkConfig
  | ["help"] => .help .help
  | _ => .unusable

def ofArguments : List String → Request
  | "run" :: rest => readOptions .run completeRun {} rest
  | "check-config" :: rest => readOptions .checkConfig completeCheck {} rest
  | "help" :: rest => helpFor rest
  | arg :: _ =>
    if isHelp arg then .help .program
    else if arg = "--version" ∨ (arg.startsWith "-V" ∧ !arg.startsWith "--") then .version
    else .unusable
  | [] => .unusable

end Request

end StageGate
