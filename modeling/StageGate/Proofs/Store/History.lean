import StageGate.Proofs.Moments
import StageGate.Proofs.Store.Writes

/-!
# What becomes of a store

Clients write to a store one after the other, and some of what they ask for is refused. Main
statements: `accepted` says all that an accepted write does, index and versions included, where
`Wrote` tells of the promotions and of the feed alone; `afterAll_inv`, that what accepted writes
keep holds whatever is written.
-/

namespace StageGate

def Stage.stamped (stage : Stage) (version : UInt64) : Stage :=
  { stage with metadata := { stage.metadata with version } }

@[simp] theorem Stage.stamped_version (stage : Stage) (version : UInt64) :
    (stage.stamped version).metadata.version = version := rfl

def Application.stamped (app : Application) (version : UInt64) : Application :=
  { app with metadata := { app.metadata with version } }

@[simp] theorem Application.stamped_version (app : Application) (version : UInt64) :
    (app.stamped version).metadata.version = version := rfl

namespace Store

variable {s s' : Store} {w : Write} {ws : List Write} {k : PromotionKey} {p : Promotion}

def afterAll (s : Store) (ws : List Write) : Store := ws.foldl after s

def log (s : Store) (ws : List Write) : List (Moment Store Write) := moments after s ws

def answer? {α : Type} (call : Except StoreError (α × Store)) : Option α :=
  call.toOption.map Prod.fst

theorem answer?_of_error {α : Type} {call : Except StoreError (α × Store)} {e : StoreError}
    (h : Prod.snd <$> call = .error e) : answer? call = none := by
  cases call with
  | error _ => rfl
  | ok _ => cases h

theorem after_of_ok (h : s.write w = .ok s') : s.after w = s' := by
  rw [after, h]

theorem after_of_error {e : StoreError} (h : s.write w = .error e) : s.after w = s := by
  rw [after, h]

theorem afterAll_append (s : Store) (first second : List Write) :
    s.afterAll (first ++ second) = (s.afterAll first).afterAll second := List.foldl_append

theorem after_inv {I : Store → Prop} (h : I s) (kept : ∀ {s'}, s.write w = .ok s' → I s') :
    I (s.after w) := by
  cases hw : s.write w with
  | ok s' =>
    rw [after_of_ok hw]
    exact kept hw
  | error e =>
    rw [after_of_error hw]
    exact h

theorem afterAll_inv {I : Store → Prop} (start : I s)
    (kept : ∀ {s s' w}, I s → s.write w = .ok s' → I s') (ws : List Write) :
    I (s.afterAll ws) :=
  foldl_of_kept start fun _ _ h => after_inv h (kept h)

-- ---------------------------------------------------------------------------
-- Accepted writes
-- ---------------------------------------------------------------------------

/-- The store with a stage in it, before the promotions into the stage are indexed anew. -/
def putStage (s : Store) (stage : Stage) : Store :=
  { s with
    lastVersion := s.nextVersion
    stages := s.stages.insert stage.key (stage.stamped s.nextVersion) }

def putApplication (s : Store) (app : Application) : Store :=
  { s with
    lastVersion := s.nextVersion
    applications := s.applications.insert app.key (app.stamped s.nextVersion) }

theorem putApplication_of_ok {app app' : Application}
    (h : s.upsertApplication app = .ok (app', s')) :
    app' = app.stamped s.nextVersion ∧ s' =
      if (s.application? app.key).isSome then
        (s.putApplication app).emit
          (.applicationUpdated (s.application? app.key) (some (app.stamped s.nextVersion)))
      else s.putApplication app := by
  simp only [upsertApplication, bind_ok, pure_ok] at h
  obtain ⟨_, -, _, -, h⟩ := h
  cases h
  exact ⟨rfl, rfl⟩

inductive Accepted (s s' : Store) : Write → Prop where
  | create (p : Promotion) (fresh : s.promotion? p.key = none)
      (answer : s.create p = .ok (p.stamped s.nextVersion, s'))
      (next : s' = (s.put p).2.emit (.promotionCreated (p.stamped s.nextVersion))) :
      s.Accepted s' (.create p)
  | delete (key : PromotionKey) (p : Promotion) (stored : s.promotion? key = some p)
      (answer : s.delete key = .ok (p, s'))
      (next : s' = ({ s with
        promotions := s.promotions.erase key
        running := s.running.remove key } : Store).emit (.promotionDeleted p)) :
      s.Accepted s' (.delete key)
  | updateStatus (key : PromotionKey) (status : PromotionStatus) (old : Promotion)
      (stored : s.promotion? key = some old)
      (answer : s.updateStatus key old.metadata.version status =
        .ok ({ old.stamped s.nextVersion with status }, s'))
      (next : s' = (s.put { old with status }).2.emit
        (.promotionUpdated (some old) (some { old.stamped s.nextVersion with status }))) :
      s.Accepted s' (.updateStatus key old.metadata.version status)
  | upsertStage (stage : Stage)
      (answer : s.upsertStage stage = .ok (stage.stamped s.nextVersion, s'))
      (next : s' = ((s.promotionList.filter fun p => p.stageKey = stage.key).map
        Promotion.key).foldl reindex (s.putStage stage)) : s.Accepted s' (.upsertStage stage)
  | addApplication (app : Application) (fresh : s.application? app.key = none)
      (answer : s.upsertApplication app = .ok (app.stamped s.nextVersion, s'))
      (next : s' = s.putApplication app) : s.Accepted s' (.upsertApplication app)
  | replaceApplication (app old : Application) (stored : s.application? app.key = some old)
      (answer : s.upsertApplication app = .ok (app.stamped s.nextVersion, s'))
      (next : s' = (s.putApplication app).emit
        (.applicationUpdated (some old) (some (app.stamped s.nextVersion)))) :
      s.Accepted s' (.upsertApplication app)

theorem accepted (h : s.write w = .ok s') : s.Accepted s' w := by
  cases w with
  | create p =>
    obtain ⟨p', h⟩ := map_snd_ok.mp h
    have answer := h
    obtain ⟨fresh, rfl, -⟩ := create_ok h
    simp only [create, bind_ok] at h
    obtain ⟨_, -, _, -, _, -, h⟩ := h
    split at h
    · cases h
    · cases h
      exact .create p fresh answer rfl
  | delete key =>
    obtain ⟨p, h⟩ := map_snd_ok.mp h
    have answer := h
    unfold delete at h
    split at h
    · cases h
    · next p stored =>
      cases h
      exact .delete key p stored answer rfl
  | updateStatus key version status =>
    obtain ⟨p', answer⟩ := map_snd_ok.mp h
    obtain ⟨old, stored, rfl, rfl, -⟩ := updateStatus_ok answer
    have next := answer
    simp only [updateStatus, stored, ne_eq, not_true, if_false] at next
    cases next
    exact .updateStatus key status old stored answer rfl
  | upsertStage stage =>
    obtain ⟨stage', h⟩ := map_snd_ok.mp h
    have answer := h
    simp only [upsertStage, bind_ok, pure_ok] at h
    obtain ⟨_, -, _, -, h⟩ := h
    cases h
    exact .upsertStage stage answer rfl
  | upsertApplication app =>
    obtain ⟨app', answer⟩ := map_snd_ok.mp h
    obtain ⟨rfl, next⟩ := putApplication_of_ok answer
    cases hold : s.application? app.key with
    | none => exact .addApplication app hold answer (by simpa [hold] using next)
    | some old => exact .replaceApplication app old hold answer (by simpa [hold] using next)

theorem Accepted.defaultNamespace (h : s.Accepted s' w) :
    s'.defaultNamespace = s.defaultNamespace := by
  cases h with
  | create p fresh answer next => exact next ▸ rfl
  | delete key p stored answer next => exact next ▸ rfl
  | updateStatus key status old stored answer next => exact next ▸ rfl
  | upsertStage stage answer next =>
    rw [next, foldl_reindex]
    rfl
  | addApplication app fresh answer next => exact next ▸ rfl
  | replaceApplication app old stored answer next => exact next ▸ rfl

-- ---------------------------------------------------------------------------
-- Keys
-- ---------------------------------------------------------------------------

def Keyed (s : Store) : Prop := ∀ k p, s.promotion? k = some p → p.key = k

theorem keyed_empty (ns : String) : Keyed { defaultNamespace := ns } := fun _ _ h => by cases h

theorem Keyed.write (h : s.Keyed) (hw : s.write w = .ok s') : s'.Keyed := fun _ _ hp =>
  (wrote hw).key_eq (h _ _) hp

def StagesKeyed (s : Store) : Prop := ∀ k stage, s.stage? k = some stage → stage.key = k

theorem stagesKeyed_empty (ns : String) : StagesKeyed { defaultNamespace := ns } :=
  fun _ _ h => by cases h

theorem Accepted.stages (h : s.Accepted s' w) :
    s'.stages = s.stages ∨ ∃ stage : Stage, s'.stages = s.stages.insert stage.key stage := by
  cases h with
  | create p fresh answer next => exact .inl (next ▸ rfl)
  | delete key p stored answer next => exact .inl (next ▸ rfl)
  | updateStatus key status old stored answer next => exact .inl (next ▸ rfl)
  | upsertStage stage answer next =>
    rw [next, foldl_reindex]
    exact .inr ⟨{ stage with metadata := { stage.metadata with version := s.nextVersion } }, rfl⟩
  | addApplication app fresh answer next => exact .inl (next ▸ rfl)
  | replaceApplication app old stored answer next => exact .inl (next ▸ rfl)

theorem StagesKeyed.write (h : s.StagesKeyed) (hw : s.write w = .ok s') : s'.StagesKeyed := by
  intro k stage hstage
  unfold stage? at hstage
  rcases (accepted hw).stages with hsame | ⟨new, hnew⟩
  · rw [hsame] at hstage
    exact h k stage hstage
  · rw [hnew] at hstage
    by_cases hk : k = new.key
    · rw [hk, SortedMap.get?_insert_self] at hstage
      rw [hk, ← Option.some.inj hstage]
    · rw [SortedMap.get?_insert_of_ne _ _ hk] at hstage
      exact h k stage hstage

end Store

end StageGate
