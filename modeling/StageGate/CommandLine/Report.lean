import StageGate.Promoter.Run
import StageGate.Resource.Fixtures

/-!
# Reports

A run over fixtures, from a store that holds just them until nothing is left to do, and what is
reported of it: every promotion with its phase, and the counters.
-/

namespace StageGate

inductive ErrorCode where
  | config
  | io
  | fixtures
  | runtime
deriving DecidableEq, Repr

def ErrorCode.label : ErrorCode → String
  | .config => "PROMOCTL_CLI_CONFIG_ERROR"
  | .io => "PROMOCTL_CLI_IO_ERROR"
  | .fixtures => "PROMOCTL_CLI_FIXTURES_ERROR"
  | .runtime => "PROMOCTL_CLI_RUNTIME_FAILED"

structure CommandError where
  code : ErrorCode
  message : String
deriving DecidableEq, Repr

namespace CommandError

def display (e : CommandError) : String := e.code.label ++ ": " ++ e.message

def ofSettings (e : SettingsError) : CommandError := ⟨.config, e.message⟩

def ofStore (e : StoreError) : CommandError := ⟨.fixtures, e.message⟩

end CommandError

structure Report where
  promotions : List Promotion
  counters : Counters

namespace Report

/-- A promotion in short; an error is given where there is one. -/
def summary (p : Promotion) : Json :=
  .object ([("namespace", .string p.metadata.ns), ("name", .string p.metadata.name),
    ("stage", .string p.spec.stage), ("phase", p.phase.toJson)] ++
    Json.someMember "error" .string p.status.error)

def summaries (promotions : List Promotion) : Json := Json.arrayOf summary promotions

def toJson (r : Report) : Json :=
  .object [("promotions", summaries r.promotions), ("metrics", r.counters.toJson)]

def ofWorld (w : World) : Report := ⟨w.store.promotionList, w.counters⟩

/-- More steps than a run over so many promotions takes: each is admitted, dispatched and attempted
once, and each attempt is followed by two changes. -/
def steps (promotions : Nat) : Nat := 16 * (promotions + 1)

def settledRun (settings : Settings) (f : Fixtures) : Except CommandError Run := do
  let store ←
    match ({ defaultNamespace := settings.argocdNamespace : Store }).seed f with
    | .ok s => pure s
    | .error e => throw (.ofStore e)
  match ({ world := World.start settings store : Run }).open? with
  | .ok r => return (r.settle (steps f.promotions.length)).close
  | .error e => throw ⟨.runtime, "Controller failed: " ++ e.message⟩

/-- Runs the promoter over fixtures, with mechanics that only check specifications. -/
def execute (settings : Settings) (f : Fixtures) : Except CommandError Report := do
  let r ← settledRun settings f
  return ofWorld r.world

end Report

end StageGate
