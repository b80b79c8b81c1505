import StageGate.Store.Basic

/-!
# Writes as data

What a client may ask of the store, as a value, and what becomes of the store by it. A write that
the store refuses changes nothing.
-/

namespace StageGate

inductive Write where
  | create (promotion : Promotion)
  | delete (key : PromotionKey)
  | updateStatus (key : PromotionKey) (version : UInt64) (status : PromotionStatus)
  | upsertStage (stage : Stage)
  | upsertApplication (application : Application)
deriving DecidableEq

namespace Store

def write (s : Store) : Write → Except StoreError Store
  | .create p => Prod.snd <$> s.create p
  | .delete key => Prod.snd <$> s.delete key
  | .updateStatus key version status => Prod.snd <$> s.updateStatus key version status
  | .upsertStage stage => Prod.snd <$> s.upsertStage stage
  | .upsertApplication app => Prod.snd <$> s.upsertApplication app

def after (s : Store) (w : Write) : Store :=
  match s.write w with
  | .ok s => s
  | .error _ => s

/-- Gives a promotion a status whatever version it has. -/
def overwrite (s : Store) (key : PromotionKey) (status : PromotionStatus) : Store :=
  s.after (.updateStatus key (s.currentVersion key) status)

end Store

end StageGate
