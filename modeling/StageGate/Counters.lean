import StageGate.Json.Basic

/-!
# Counters

How often each kind of decision was taken since the start. The counters only rise.
-/

namespace StageGate

structure Counters where
  /-- Promotions admitted, whether they became active or wait. -/
  admissions : Nat := 0
  /-- Promotions that claimed their stage and were pending. -/
  activations : Nat := 0
  /-- Claims that had to wait. -/
  deferrals : Nat := 0
  /-- Stages freed by a promotion that ended or is gone. -/
  conclusions : Nat := 0
  /-- Promotions thrown out of a line. -/
  staleDiscards : Nat := 0
  /-- Promotions sent to the work queue as the next of their stage. -/
  dispatches : Nat := 0
  /-- Running promotions sent to the work queue because an application changed. -/
  rechecks : Nat := 0
  reconciles : Nat := 0
  reconcileErrors : Nat := 0
deriving DecidableEq, Repr, Inhabited

namespace Counters

def toList (c : Counters) : List (String × Nat) :=
  [("admissions", c.admissions), ("activations", c.activations), ("deferrals", c.deferrals),
    ("conclusions", c.conclusions), ("stale_discards", c.staleDiscards),
    ("dispatches", c.dispatches), ("rechecks", c.rechecks), ("reconciles", c.reconciles),
    ("reconcile_errors", c.reconcileErrors)]

def toJson (c : Counters) : Json := .object (c.toList.map fun e => (e.1, .nat e.2))

end Counters

end StageGate
