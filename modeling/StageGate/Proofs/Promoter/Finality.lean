import StageGate.Proofs.Promoter.StatusLoop

/-!
# A promotion that has ended stays so

An attempt at a promotion writes statuses while others write what they like to the same store. It
has read a promotion that has not ended, and it writes over the version that it has read, so it
writes over nothing else: `Store.Live` says so of a version, and it stays true whatever is written
since. Main statement: `finished_stays_finished`.
-/

namespace StageGate

namespace Store

variable {s t : Store} {n : Nat} {key : PromotionKey} {version : UInt64} {p : Promotion}

/-- The version was given before now, and where it still is a promotion's version that promotion
has not ended. -/
structure Live (s : Store) (key : PromotionKey) (version : UInt64) : Prop where
  given : version ≤ s.lastVersion
  unended : ∀ {p}, s.promotion? key = some p → p.metadata.version = version →
    p.isTerminal = false

theorem Live.follows (h : s.Live key version) (hf : s.Follows t) : t.Live key version where
  given := UInt64.le_trans h.given hf.last
  unended hp hv := h.unended (hf.kept hp (hv ▸ h.given)) hv

end Store

def StatusTry.SparesEnded (t : StatusTry) : Prop :=
  t.succeeded = true → ∃ p, t.store.promotion? t.key = some p ∧ p.isTerminal = false

namespace World

variable {w u v : World} {n m : Nat} {key : PromotionKey} {version : UInt64}
  {status : PromotionStatus} {p q : Promotion} {stage : StageKey}

theorem fits_of_few {ns : String} {ws : List Write}
    (stored : w.store = Store.afterAll { defaultNamespace := ns } ws)
    (few : ws.length + w.disturbances.meddlings + n < UInt64.size) : w.Fits n := by
  have hstart : Store.Ready { defaultNamespace := ns }
      (ws.length + (w.disturbances.meddlings + n)) := Store.ready_empty ns (by omega)
  unfold Fits
  rw [stored]
  exact hstart.afterAll.1

-- ---------------------------------------------------------------------------
-- One status write
-- ---------------------------------------------------------------------------

theorem statusTry_spares (h : w.Fits n) (live : w.store.Live key version) :
    (w.statusTry key version status).SparesEnded := by
  intro hsucceeded
  obtain ⟨old, stored, hversion⟩ := statusTry_succeeded hsucceeded
  have hfound := live.follows (h.found .updateStatus (some key)).2
  exact ⟨old, stored, hfound.unended stored hversion⟩

/-- What the store held may be written over, unless it is an end. -/
theorem Sighted.live {s : Store} (h : w.Sighted n key p s u) (fits : w.Fits n)
    (hopen : p.isTerminal = false) : u.store.Live key p.metadata.version := by
  obtain ⟨hgiven, hfollows⟩ := h.follows fits
  refine ⟨UInt64.le_trans hgiven hfollows.last, fun hq hv => ?_⟩
  have hold := hfollows.kept hq (hv ▸ hgiven)
  rw [h.stored] at hold
  cases hold
  exact hopen

theorem Fits.keyed (h : w.Fits n) : w.store.Keyed := Store.Ready.keyed h

theorem live_updateStatus (h : w.Fits 1)
    (written : ((updateStatus key version status).run w).1 = .ok p) (hopen : p.isTerminal = false) :
    ((updateStatus key version status).run w).2.store.Live p.key p.metadata.version := by
  obtain ⟨s, hs⟩ := sighted_updateStatus h.keyed written
  have hkey : p.key = key := (h.keyed.written hs.before) key p hs.stored
  exact hkey ▸ hs.live h hopen

theorem live_readPromotion (h : w.Fits n) (read : ((readPromotion key).run w).1 = .ok (some p)) :
    p.key = key ∧
      (p.isTerminal = false → ((readPromotion key).run w).2.store.Live key p.metadata.version) := by
  have hs := sighted_readPromotion read
  exact ⟨(h.keyed.written hs.before) key p hs.stored, hs.live (h.le (Nat.zero_le n))⟩

-- ---------------------------------------------------------------------------
-- Writing until it works
-- ---------------------------------------------------------------------------

/-- What comes of writing a status over a version, with so many attempts at most. -/
structure Attempted (w : World) (p : Promotion) (version : UInt64) (limit : Nat)
    (ts : List StatusTry) (answer : Except ReconcileError (Option Promotion)) (u : World) :
    Prop where
  few : ts.length ≤ limit
  once : ts.countP (·.succeeded) ≤ 1
  free : ts.countP (·.succeeded) = 0 → ∀ q?, answer = .ok q? →
    u.gates.active? p.stageKey ≠ some p.key
  ended : ts.countP (·.succeeded) = 0 → ∀ q, answer = .ok (some q) → q.isTerminal = true
  onward : w.Onward (ts.countP (·.succeeded)) u
  spares : w.Fits 1 → w.store.Live p.key version → ∀ t ∈ ts, t.SparesEnded
  live : w.Fits 1 → w.store.Live p.key version → ∀ q, answer = .ok (some q) →
    q.isTerminal = false → u.store.Live q.key q.metadata.version

theorem countP_failed {t : StatusTry} (h : t.succeeded = false) (us : List StatusTry) :
    (t :: us).countP (·.succeeded) = us.countP (·.succeeded) := by simp [h]

theorem onward_failed (failed : (w.statusTry key version status).succeeded = false) :
    w.Onward 0 ((updateStatus key version status).run w).2 := by
  have honward := onward_updateStatus w key version status
  rwa [failed, if_neg (by decide)] at honward

theorem attempted_ok {updated : Promotion} {retries : Nat} (log : List LogRecord)
    (written : ((updateStatus p.key version status).run w).1 = .ok updated) :
    w.Attempted p version (retries + 1) [w.statusTry p.key version status] (.ok (some updated))
      { ((updateStatus p.key version status).run w).2 with log } := by
  have hsucceeded : (w.statusTry p.key version status).succeeded = true :=
    succeeded_iff.mpr ⟨updated, written⟩
  have hcount : [w.statusTry p.key version status].countP (·.succeeded) = 1 := by simp [hsucceeded]
  have honward := onward_updateStatus w p.key version status
  rw [if_pos hsucceeded] at honward
  constructor
  case few => simp
  case once => omega
  case free => simp [hcount]
  case ended => simp [hcount]
  case onward => rwa [hcount]
  case spares =>
    rintro hfits hlive t ht
    rw [List.mem_singleton.mp ht]
    exact statusTry_spares hfits hlive
  case live =>
    rintro hfits - q hq hopen
    cases hq
    exact live_updateStatus hfits written hopen

theorem attempted_gaveUp {retries : Nat} {answer : Except ReconcileError (Option Promotion)}
    (failed : (w.statusTry p.key version status).succeeded = false)
    (h : ((updateStatus p.key version status).run w).2.GaveUp p answer u) :
    w.Attempted p version (retries + 1) [w.statusTry p.key version status] answer u := by
  have hcount : [w.statusTry p.key version status].countP (·.succeeded) = 0 :=
    countP_failed failed []
  constructor
  case few => simp
  case once => omega
  case free => exact fun _ => h.free
  case ended => exact fun _ => h.ended
  case onward =>
    rw [hcount]
    exact (onward_failed failed).trans h.onward
  case spares =>
    rintro hfits hlive t ht
    rw [List.mem_singleton.mp ht]
    exact statusTry_spares hfits hlive
  case live =>
    rintro - - q hq hopen
    rw [h.ended q hq] at hopen
    cases hopen

theorem Attempted.again {retries : Nat} {latest : Promotion} {us : List StatusTry}
    {answer : Except ReconcileError (Option Promotion)} {cause : StoreError}
    (refused : (updateStatus p.key version status).run w = (.error cause, v))
    (read : ((readPromotion p.key).run v).1 = .ok (some latest))
    (unended : latest.isTerminal = false)
    (h : ((readPromotion p.key).run v).2.Attempted p latest.metadata.version retries us answer u) :
    w.Attempted p version (retries + 1) (w.statusTry p.key version status :: us) answer u := by
  obtain ⟨hcause, rfl⟩ := Prod.ext_iff.mp refused
  have failed := not_succeeded hcause
  have hcount := countP_failed failed us
  have honward := (onward_failed failed).trans ((Passive.readPromotion p.key).onward _)
  have hlatest (hfits : w.Fits 1) :
      ((readPromotion p.key).run ((updateStatus p.key version status).run w).2).2.Fits 1 ∧
        ((readPromotion p.key).run ((updateStatus p.key version status).run w).2).2.store.Live
          p.key latest.metadata.version :=
    ⟨(honward 1 hfits).1,
      (live_readPromotion (onward_failed failed 1 hfits).1 read).2 unended⟩
  constructor
  case few => simpa using h.few
  case once => exact hcount ▸ h.once
  case free => exact hcount ▸ h.free
  case ended => exact hcount ▸ h.ended
  case onward =>
    rw [hcount, ← Nat.zero_add (us.countP _)]
    exact honward.trans h.onward
  case spares =>
    rintro hfits hlive t ht
    rcases List.mem_cons.mp ht with rfl | hlater
    · exact statusTry_spares hfits hlive
    · exact h.spares (hlatest hfits).1 (hlatest hfits).2 t hlater
  case live =>
    rintro hfits -
    exact h.live (hlatest hfits).1 (hlatest hfits).2

theorem writeStatus_tries (p : Promotion) (status : PromotionStatus) (retries : Nat)
    (version : UInt64) (w : World) :
    Tries (writeStatus p status retries version).run w (w.Attempted p version (retries + 1)) :=
  writeStatus_rule p status (Q := fun version retries w => w.Attempted p version (retries + 1))
    (fun log written => attempted_ok log written)
    (fun failed => attempted_gaveUp (not_succeeded failed))
    (fun failed read unended hrest => hrest.again failed read unended) retries version w

theorem setStatus_tries (p : Promotion) (status : PromotionStatus) (w : World) :
    Tries (setStatus p status).run w (w.Attempted p p.metadata.version
      (max 1 w.settings.statusUpdateRetries.toNat)) := by
  have hlimit : w.settings.statusUpdateRetries.toNat - 1 + 1 =
      max 1 w.settings.statusUpdateRetries.toNat := by omega
  unfold setStatus
  refine Passive.get.lift_bind ?_
  rw [← hlimit]
  exact writeStatus_tries p status _ _ w

-- ---------------------------------------------------------------------------
-- A whole attempt at a promotion
-- ---------------------------------------------------------------------------

/-- The promotion has not ended as far as the promoter knows, and there is room to write its end. -/
structure Working (w : World) (p : Promotion) : Prop where
  fits : w.Fits 1
  live : w.store.Live p.key p.metadata.version

theorem Fits.passive {x : Action α} (h : w.Fits n) (hx : Passive x) : (x.run w).2.Fits n :=
  (hx.onward w n h).1

theorem Working.passive {x : Action α} (h : w.Working p) (hx : Passive x) :
    (x.run w).2.Working p :=
  ⟨h.fits.passive hx, h.live.follows (hx.onward w 1 h.fits).2⟩

theorem Working.setStatus (h : w.Working p) (status : PromotionStatus) :
    Tries (World.setStatus p status).run w fun ts _ _ => ∀ t ∈ ts, t.SparesEnded :=
  (setStatus_tries p status w).mono fun _ _ _ hs => hs.spares h.fits h.live

theorem markRunning_tries (key : PromotionKey) (stageKey : StageKey) (h : w.Fits 2)
    (live : w.store.Live p.key p.metadata.version) :
    Tries (markRunning key stageKey p).run w fun ts answer u => (∀ t ∈ ts, t.SparesEnded) ∧
      ∀ q, answer = .ok (some q) → q.isTerminal = false → u.Working q := by
  unfold markRunning
  split
  · refine (Passive.count _).lift_bind ((Passive.record _).lift_bind ?_)
    refine (setStatus_tries p _ _).mono fun ts answer u hs => ?_
    have hroom : w.Fits (1 + ts.countP (·.succeeded)) := h.le (by have := hs.once; omega)
    have hfits : w.Fits 1 := h.le (by omega)
    exact ⟨hs.spares hfits live, fun q hq hopen => ⟨(hs.onward 1 hroom).1,
      hs.live hfits live q hq hopen⟩⟩
  · refine (Passive.pure _).tries w ⟨by simp, fun q hq _ => ?_⟩
    cases hq
    exact ⟨h.le (by omega), live⟩

structure Prepared (ts : List StatusTry) (answer : Except ReconcileError (Option Task))
    (u : World) : Prop where
  spares : ∀ t ∈ ts, t.SparesEnded
  working : ∀ task, answer = .ok (some task) → u.Working task.promotion

theorem Prepared.nothing {ts : List StatusTry} (h : ∀ t ∈ ts, t.SparesEnded) (u : World) :
    Prepared ts (.ok none) u := ⟨h, fun _ h => by cases h⟩

theorem Prepared.failed {ts : List StatusTry} (h : ∀ t ∈ ts, t.SparesEnded) (e : ReconcileError)
    (u : World) : Prepared ts (.error e) u := ⟨h, fun _ h => by cases h⟩

theorem advance_tries (key : PromotionKey) (stageKey : StageKey) (h : w.Fits 2) :
    Tries (advance key stageKey).run w Prepared := by
  have hread := h.passive (Passive.readPromotion key)
  unfold advance
  refine (Passive.readPromotion key).lift_bind ?_
  rcases hanswer : ((readPromotion key).run w).1 with cause | latest?
  · exact (Passive.pure _).tries _ (.failed (by simp) _ _)
  · simp only
    cases hlatest : latest?.filter (!·.isTerminal) with
    | none =>
      exact (Passive.release _ _).lift_bind ((Passive.pure _).tries _ (.nothing (by simp) _))
    | some latest =>
      obtain ⟨rfl, hopen⟩ := Option.filter_eq_some_iff.mp hlatest
      obtain ⟨rfl, hlive⟩ := live_readPromotion h hanswer
      refine Tries.attempt_bind (markRunning_tries _ stageKey hread (hlive (by simpa using hopen)))
        ?marked fun ts e u hs => .failed hs.1 e u
      case marked =>
        rintro ts (_ | running) u ⟨hts, hworking⟩
        · exact (Passive.pure _).tries _ (.nothing (by simpa using hts) _)
        · simp only
          split
          · exact (Passive.pure _).tries _ (.nothing (by simpa using hts) _)
          · next hopen =>
            have hrunning : u.Working running := hworking running rfl (by simpa using hopen)
            have hstaged := hrunning.passive (Passive.readStage stageKey)
            refine (Passive.readStage stageKey).lift_bind ?_
            rcases ((readStage stageKey).run u).1 with cause | _ | stage
            · exact (Passive.pure _).tries _ (.failed (by simpa using hts) _ _)
            · refine Tries.attempt_bind (hstaged.setStatus _) (fun us _ v hus => ?_)
                (fun us e v hus => .failed (List.forall_mem_append.mpr ⟨hts, hus⟩) e v)
              refine (Passive.pure _).tries _ (.nothing ?_ _)
              simpa using List.forall_mem_append.mpr ⟨hts, hus⟩
            · refine (Passive.pure _).tries _ ⟨by simpa using hts, fun task hq => ?_⟩
              cases hq
              exact hstaged

theorem finish_tries {task : Task} (h : w.Working task.promotion) (answer : Answer) :
    Tries (finish task answer).run w fun ts _ _ => ∀ t ∈ ts, t.SparesEnded := by
  have write (status : PromotionStatus) (outcome : Outcome) :
      Tries (do
        let _ ← setStatus task.promotion status
        return outcome : Attempt Outcome).run w fun ts _ _ => ∀ t ∈ ts, t.SparesEnded :=
    Tries.attempt_bind (h.setStatus status)
      (fun ts _ u hts => (Passive.pure _).tries u (by simpa using hts)) fun _ _ _ hts => hts
  unfold finish
  cases answer with
  | status status =>
    simp only
    split
    · exact write status .done
    · exact Passive.get.lift_bind ((Passive.pure _).tries _ (by simp))
  | structural text => exact write _ .done
  | transient text => exact (Passive.pure _).tries _ (by simp)
  | crash => exact (Passive.pure _).tries _ (by simp)

theorem prepare_tries (key : PromotionKey) (h : w.Fits 2) :
    Tries (prepare key).run w Prepared := by
  unfold prepare
  refine (Passive.count _).lift_bind ((Passive.readPromotion key).lift_bind ?_)
  split
  · exact (Passive.pure _).tries _ (.failed (by simp) _ _)
  · exact (Passive.pure _).tries _ (.nothing (by simp) _)
  · next p _ =>
    split
    · exact (Passive.pure _).tries _ (.nothing (by simp) _)
    · unfold proceed
      refine (Passive.claimStage p).lift_bind ?_
      split
      · refine advance_tries key p.stageKey (Fits.passive ?_ (Passive.claimStage p))
        exact Fits.passive (Fits.passive h (Passive.count _)) (Passive.readPromotion key)
      · exact (Passive.pure _).tries _ (.nothing (by simp) _)

theorem reconcile_tries (mechanics : Mechanics) (key : PromotionKey) (h : w.Fits 2) :
    Tries (reconcile mechanics key).run w fun ts _ _ => ∀ t ∈ ts, t.SparesEnded := by
  unfold reconcile
  refine Tries.attempt_bind (prepare_tries key h) ?prepared fun ts e u hs => hs.spares
  case prepared =>
    rintro ts (_ | task) u ⟨hts, hworking⟩
    · exact (Passive.pure _).tries u (by simpa using hts)
    · refine (finish_tries (hworking task rfl) _).mono fun us _ v hus => ?_
      exact List.forall_mem_append.mpr ⟨hts, hus⟩

end World

open World

/-- Among other writers who write to the store what they like between any two calls, with fewer than
2^64 writes in all: an attempt at a promotion writes no status over one that has ended. And wherever
the promoter comes to set a status, it makes no more attempts than the settings say, and at least
one; at most one of them succeeds; and where none does and there is a result all the same, then that
is nothing or a promotion that another writer has ended, and the stage is no longer held for it. -/
theorem finished_stays_finished (mechanics : Mechanics) (key : PromotionKey) {ns : String}
    {ws : List Write} {w : World} (stored : w.store = Store.afterAll { defaultNamespace := ns } ws)
    (few : ws.length + w.disturbances.meddlings + 2 < UInt64.size) :
    (∃ ts, Writes (reconcile mechanics key).run w ts ∧ ∀ t ∈ ts, t.succeeded = true →
      ∃ p, t.store.promotion? t.key = some p ∧ p.isTerminal = false) ∧
    ∀ (v : World) (p : Promotion) (status : PromotionStatus), ∃ ts,
      Writes (setStatus p status).run v ts ∧
      ts.length ≤ max 1 v.settings.statusUpdateRetries.toNat ∧
      ts.countP (·.succeeded) ≤ 1 ∧
      (ts.countP (·.succeeded) = 0 → ∀ q?, ((setStatus p status).run.run v).1 = .ok q? →
        ((setStatus p status).run.run v).2.gates.active? p.stageKey ≠ some p.key ∧
          ∀ q, q? = some q → q.isTerminal = true) := by
  refine ⟨reconcile_tries mechanics key (fits_of_few stored few), fun v p status => ?_⟩
  obtain ⟨ts, hts, h⟩ := setStatus_tries p status v
  refine ⟨ts, hts, h.few, h.once, fun hnone q? hq => ⟨h.free hnone q? hq, ?_⟩⟩
  rintro q rfl
  exact h.ended hnone q hq

namespace World.Sample

open Store.Sample

/-- A promotion is about to be taken up. Its status gets a new version before the first attempt to
mark it as running, and it is aborted before the second one. -/
def contested : World :=
  { World.start {} (Store.afterAll { defaultNamespace := "argocd" } [.create promotion]) with
    disturbances := ⟨[{ call := .updateStatus, disturbance := { before := [.touch] } },
      { call := .updateStatus, disturbance := { before := [.abort] } }]⟩ }

theorem finished_stays_finished_sample : ∃ w ts, w.disturbances.meddlings = 2 ∧
    Writes (reconcile (fun _ _ => .crash) key).run w ts ∧
    (∀ t ∈ ts, t.succeeded = true → ∃ p, t.store.promotion? t.key = some p ∧
      p.isTerminal = false) ∧
    ((reconcile (fun _ _ => .crash) key).run.run w).2.store.hasEnded key = true ∧
    ((reconcile (fun _ _ => .crash) key).run.run w).2.gates.active? promotion.stageKey = none := by
  have hstored : contested.store = Store.afterAll { defaultNamespace := "argocd" }
      [.create promotion] := rfl
  obtain ⟨⟨ts, hts, hspares⟩, -⟩ :=
    finished_stays_finished (fun _ _ => .crash) key hstored (by decide)
  refine ⟨contested, ts, by decide, hts, hspares, ?_, ?_⟩ <;> decide +kernel

end World.Sample

end StageGate
