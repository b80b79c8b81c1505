import StageGate.Backoff
import StageGate.FileText
import StageGate.Json.Reader
import StageGate.Json.Record
import StageGate.Key
import StageGate.Resource.Metadata
import StageGate.Text.Blank

/-!
# Settings

The settings of a run, read from a JSON file. A field that is left out takes its default, and a file
whose settings make no sense is refused for the first fault found.
-/

namespace StageGate

structure Settings where
  /-- How many promotions are worked on at a time. -/
  workers : UInt64 := 4
  /-- How long until a promotion that is still in progress is looked at again. -/
  requeueIntervalMs : UInt64 := 5000
  rateLimitBaseDelayMs : UInt64 := 5
  rateLimitMaxDelayMs : UInt64 := 60000
  /-- How often a status is written before a conflict is given up on. -/
  statusUpdateRetries : UInt32 := 5
  /-- The namespace of applications that an update does not place in one. -/
  argocdNamespace : String := "argocd"
  /-- Only promotions with this shard label are worked on. -/
  shard : Option String := none
  logFilter : String := "info"
  logJson : Bool := false
deriving DecidableEq, Repr, Inhabited

inductive SettingsFault where
  | noWorkers
  | noRequeueInterval
  | maxDelayBelowBase (max base : UInt64)
  | noStatusUpdates
  | blankNamespace
  | blankShard
deriving DecidableEq, Repr

def SettingsFault.reason : SettingsFault → String
  | .noWorkers => "workers must be > 0"
  | .noRequeueInterval => "requeue_interval_ms must be > 0"
  | .maxDelayBelowBase max base =>
    s!"rate_limit_max_delay_ms ({max}) must be >= rate_limit_base_delay_ms ({base})"
  | .noStatusUpdates => "status_update_retries must be > 0"
  | .blankNamespace => "argocd_namespace must not be empty"
  | .blankShard => "shard must not be empty when set"

inductive SettingsError where
  | read (path : String) (cause : FileError)
  | malformed
  | invalid (fault : SettingsFault)
deriving DecidableEq, Repr

namespace SettingsError

def invalidMessage (reason : String) : String := s!"invalid config: {reason}"

def message : SettingsError → String
  | .read path cause => "failed to read config " ++ path ++ ": " ++ cause.message
  | .malformed => "invalid config JSON: these are no settings"
  | .invalid fault => invalidMessage fault.reason

end SettingsError

namespace Settings

def fault? (s : Settings) : Option SettingsFault :=
  if s.workers = 0 then some .noWorkers
  else if s.requeueIntervalMs = 0 then some .noRequeueInterval
  else if s.rateLimitMaxDelayMs < s.rateLimitBaseDelayMs then
    some (.maxDelayBelowBase s.rateLimitMaxDelayMs s.rateLimitBaseDelayMs)
  else if s.statusUpdateRetries = 0 then some .noStatusUpdates
  else if Text.allBlank s.argocdNamespace then some .blankNamespace
  else if s.shard.any Text.allBlank then some .blankShard
  else none

def toJson (s : Settings) : Json :=
  .object [("workers", .nat s.workers.toNat),
    ("requeue_interval_ms", .nat s.requeueIntervalMs.toNat),
    ("rate_limit_base_delay_ms", .nat s.rateLimitBaseDelayMs.toNat),
    ("rate_limit_max_delay_ms", .nat s.rateLimitMaxDelayMs.toNat),
    ("status_update_retries", .nat s.statusUpdateRetries.toNat),
    ("argocd_namespace", .string s.argocdNamespace),
    ("shard", s.shard.elim .null .string), ("log_filter", .string s.logFilter),
    ("log_json", .bool s.logJson)]

def word64? (j : Json) : Option UInt64 := (j.natBelow? UInt64.size).map UInt64.ofNat

def word32? (j : Json) : Option UInt32 := (j.natBelow? UInt32.size).map UInt32.ofNat

open Json (withDefault optional text? bool?)

/-- Reads settings in which a field that is left out is as in `default`. -/
def ofJson? (default : Settings) (j : Json) : Option Settings := do
  match ← j.fields? ["workers", "requeue_interval_ms", "rate_limit_base_delay_ms",
      "rate_limit_max_delay_ms", "status_update_retries", "argocd_namespace", "shard",
      "log_filter", "log_json"] with
  | [workers, interval, base, max, retries, ns, shard, filter, json] =>
    some {
      workers := ← withDefault word64? default.workers workers
      requeueIntervalMs := ← withDefault word64? default.requeueIntervalMs interval
      rateLimitBaseDelayMs := ← withDefault word64? default.rateLimitBaseDelayMs base
      rateLimitMaxDelayMs := ← withDefault word64? default.rateLimitMaxDelayMs max
      statusUpdateRetries := ← withDefault word32? default.statusUpdateRetries retries
      argocdNamespace := ← withDefault text? default.argocdNamespace ns
      shard := ← optional text? shard
      logFilter := ← withDefault text? default.logFilter filter
      logJson := ← withDefault bool? default.logJson json }
  | _ => none

def load (path : String) (text : FileText) : Except SettingsError Settings :=
  match text with
  | .error cause => .error (.read path cause)
  | .ok text =>
    match (Json.parse? text).bind (ofJson? {}) with
    | none => .error .malformed
    | some s =>
      match s.fault? with
      | some fault => .error (.invalid fault)
      | none => .ok s

def requeueInterval (s : Settings) : Duration := .ofMillis s.requeueIntervalMs

def backoff (s : Settings) : Backoff PromotionKey :=
  { base := .ofMillis s.rateLimitBaseDelayMs, ceiling := .ofMillis s.rateLimitMaxDelayMs }

/-- Whether a resource is to be worked on here: every one is where no shard is set. -/
def isResponsibleFor (s : Settings) (m : Metadata) : Bool :=
  match s.shard with
  | some shard => m.label? shardLabel == some shard
  | none => true

end Settings

end StageGate
