import StageGate.Promoter.Run
import StageGate.Proofs.Gates.Effects
import StageGate.Proofs.Store.Chronicle
import StageGate.Proofs.WorkQueue.Sound

/-!
# Actions in a quiet world

In a quiet world nobody comes between the promoter's calls to the store and no call fails. What an
action does there is given in full, up to the counters and the log: later proofs cite these
equations and do not run the actions again.
-/

namespace StageGate.World

variable {w : World} {stage : StageKey} {k : PromotionKey}

def Quiet (w : World) : Prop := w.disturbances = {}

-- ---------------------------------------------------------------------------
-- Running an action
-- ---------------------------------------------------------------------------

theorem run_bind (x : Action α) (f : α → Action β) (w : World) :
    (x >>= f).run w = (f (x.run w).1).run (x.run w).2 := rfl

theorem run_pure (a : α) (w : World) : (pure a : Action α).run w = (a, w) := rfl

theorem run_get (w : World) : (get : Action World).run w = (w, w) := rfl

theorem run_modify (f : World → World) (w : World) :
    (modify f : Action Unit).run w = ((), f w) := rfl

theorem run_record (r : LogRecord) (w : World) :
    (record r).run w = ((), { w with log := r :: w.log }) := rfl

theorem run_count (up : Counters → Counters) (w : World) :
    (count up).run w = ((), { w with counters := up w.counters }) := rfl

theorem run_atGates (act : Gates → α × Gates) (w : World) :
    (atGates act).run w = ((act w.gates).1, { w with gates := (act w.gates).2 }) := rfl

theorem run_enqueue (key : PromotionKey) (w : World) :
    (enqueue key).run w = ((), { w with queue := w.queue.add key }) := rfl

theorem run_enqueueRateLimited (key : PromotionKey) (w : World) :
    (enqueueRateLimited key).run w =
      ((), { w with queue := w.queue.addRateLimited w.now key .zero }) := rfl

theorem run_isResponsibleFor (m : Metadata) (w : World) :
    (isResponsibleFor m).run w = (w.settings.isResponsibleFor m, w) := rfl

theorem run_receive (w : World) : receive.run w =
    match w.store.feed.receive w.position with
    | none => (none, w)
    | some (delivery, position) => (some delivery, { w with position }) := by
  show receive w = _
  unfold receive
  cases w.store.feed.receive w.position <;> rfl

theorem run_forM_inv {f : α → Action PUnit} {I : World → Prop} {items : List α}
    (step : ∀ x ∈ items, ∀ w, I w → I ((f x).run w).2) (h : I w) :
    I ((items.forM f).run w).2 := by
  induction items generalizing w with
  | nil => exact h
  | cons x items ih =>
    exact ih (fun y hy => step y (List.mem_cons_of_mem _ hy)) (step x List.mem_cons_self w h)

-- ---------------------------------------------------------------------------
-- Calls to the store
-- ---------------------------------------------------------------------------

theorem callStore_quiet (h : w.Quiet) (call : StoreCall) (target : Option PromotionKey)
    (act : Store → Except StoreError α × Store) : (callStore call target act).run w =
      ((act w.store).1, { w with store := (act w.store).2 }) := by
  have hnext : w.disturbances.next call = {} := by rw [h]; rfl
  have hrest : w.disturbances.rest call = {} := by rw [h]; rfl
  obtain ⟨⟩ := w
  simp only [Quiet] at h hnext hrest
  subst h
  simp only [callStore, StateT.run, hnext, hrest]
  rfl

theorem readPromotion_quiet (h : w.Quiet) (key : PromotionKey) :
    (readPromotion key).run w = (.ok (w.store.promotion? key), w) := by
  have hnext : w.disturbances.next .readPromotion = {} := by rw [h]; rfl
  unfold readPromotion
  simp only [run_bind, run_get, hnext, callStore_quiet h, run_pure]
  cases w.store.promotion? key <;> rfl

theorem readStage_quiet (h : w.Quiet) (key : StageKey) :
    (readStage key).run w = (.ok (w.store.stage? key), w) := callStore_quiet h _ _ _

theorem listPromotions_quiet (h : w.Quiet) :
    listPromotions.run w = (.ok w.store.promotionList, w) := callStore_quiet h _ _ _

theorem listRunning_quiet (h : w.Quiet) (app : ApplicationKey) :
    (listRunning app).run w = (.ok (w.store.runningAgainst app), w) := callStore_quiet h _ _ _

theorem updateStatus_quiet (h : w.Quiet) {status : PromotionStatus} {version : UInt64}
    (hs : w.store.updateStatus k version status = .ok (p, s')) :
    (updateStatus k version status).run w = (.ok p, { w with store := s' }) := by
  unfold updateStatus
  rw [callStore_quiet h, hs]

-- ---------------------------------------------------------------------------
-- Dispatch
-- ---------------------------------------------------------------------------

theorem revalidate_quiet (h : w.Quiet) (key : PromotionKey) :
    (revalidate key).run w = (.ok (if w.store.hasEnded key then .stale else .valid), w) := by
  unfold revalidate
  rw [run_bind, readPromotion_quiet h]
  cases hp : w.store.promotion? key with
  | none => simp only [Store.hasEnded, hp]; rfl
  | some p => simp only [Store.hasEnded, hp]; rfl

theorem selectFrom_quiet (h : w.Quiet) (line : List Entry) :
    (Gate.selectFrom revalidate line).run w =
      ((⟨.ok ((line.dropWhile (w.store.hasEnded ·.key)).head?.map Entry.key),
        (line.takeWhile (w.store.hasEnded ·.key)).map Entry.key⟩,
        line.dropWhile (w.store.hasEnded ·.key)), w) := by
  induction line with
  | nil => rfl
  | cons e rest ih =>
    rw [Gate.selectFrom, run_bind, revalidate_quiet h]
    cases he : w.store.hasEnded e.key with
    | false => simp only [he, List.dropWhile_cons, List.takeWhile_cons]; rfl
    | true =>
      simp only [if_true, run_bind, ih, he, List.dropWhile_cons, List.takeWhile_cons]
      rfl

theorem select_quiet (h : w.Quiet) (g : Gate) : (g.select revalidate).run w =
    ((⟨.ok (g.passEnded w.store.hasEnded).next?, g.endedFront w.store.hasEnded⟩,
      g.passEnded w.store.hasEnded), w) := by
  unfold Gate.select Gate.next? Gate.passEnded Gate.endedFront
  by_cases hh : g.holder.isSome = true
  · simp only [if_pos hh]
    rfl
  · simp only [if_neg hh, run_bind, selectFrom_quiet h]
    rfl

theorem selectAt_quiet (h : w.Quiet) (gs : Gates) (stage : StageKey) :
    (gs.select revalidate stage).run w =
      ((⟨.ok ((gs.passEnded w.store.hasEnded stage).gate stage).next?,
        (gs.gate stage).endedFront w.store.hasEnded⟩, gs.passEnded w.store.hasEnded stage), w) := by
  rw [Gates.gate_passEnded, if_pos rfl]
  unfold Gates.select Gates.passEnded Gates.onKnown
  cases hg : gs.gate? stage with
  | none =>
    rw [Gates.gate_of_gate?_none hg]
    rfl
  | some g =>
    rw [Gates.gate_of_gate?_some hg]
    simp only [run_bind, select_quiet h]
    rfl

def dispatched (w : World) (g : Gate) : WorkQueue :=
  match g.next? with
  | none => w.queue
  | some next => w.queue.addRateLimited w.now next .zero

theorem dismiss_run (stale : List PromotionKey) (stage : StageKey) (w : World) :
    ∃ log, ((stale.forM fun key => do
      count fun c => { c with staleDiscards := c.staleDiscards + 1 }
      record (.decision .staleEntryDiscarded key stage) : Action PUnit).run w).2 = { w with
        counters := { w.counters with
          staleDiscards := w.counters.staleDiscards + stale.length }, log } := by
  induction stale generalizing w with
  | nil => exact ⟨_, rfl⟩
  | cons key stale ih =>
    obtain ⟨log, hr⟩ := ih
      { w with
        counters := { w.counters with staleDiscards := w.counters.staleDiscards + 1 }
        log := .decision .staleEntryDiscarded key stage :: w.log }
    refine ⟨log, hr.trans ?_⟩
    rw [List.length_cons, Nat.add_right_comm, Nat.add_assoc]

theorem enqueueNext_quiet (h : w.Quiet) (stage : StageKey) : ∃ counters log,
    ((enqueueNext stage).run w).2 = { w with
      gates := w.gates.passEnded w.store.hasEnded stage
      queue := w.dispatched ((w.gates.passEnded w.store.hasEnded stage).gate stage)
      counters, log } := by
  have hs := selectAt_quiet h w.gates stage
  obtain ⟨log, hd⟩ := dismiss_run ((w.gates.gate stage).endedFront w.store.hasEnded) stage
    { w with gates := w.gates.passEnded w.store.hasEnded stage }
  unfold enqueueNext
  simp only [run_bind, run_get, hs, run_modify, hd]
  unfold dispatched
  cases ((w.gates.passEnded w.store.hasEnded stage).gate stage).next? with
  | none => exact ⟨_, _, rfl⟩
  | some key =>
    simp only [run_bind, run_enqueueRateLimited, run_count, run_record]
    exact ⟨_, _, rfl⟩

theorem enqueueNext_answer (h : w.Quiet) (stage : StageKey) : ((enqueueNext stage).run w).1 =
    ((w.gates.passEnded w.store.hasEnded stage).gate stage).next? := by
  unfold enqueueNext
  simp only [run_bind, run_get, selectAt_quiet h]
  cases ((w.gates.passEnded w.store.hasEnded stage).gate stage).next? <;> rfl

theorem enqueueNext_holders (stage other : StageKey) (w : World) :
    ((enqueueNext stage).run w).2.gates.active? other = w.gates.active? other := by
  have hselect : ((w.gates.select revalidate stage).run w).1.2.active? other =
      w.gates.active? other := Gates.active?_select revalidate w
  unfold enqueueNext
  simp only [run_bind, run_get, run_modify]
  generalize (w.gates.select revalidate stage).run w = answer at hselect ⊢
  obtain ⟨⟨⟨next, stale⟩, gates⟩, u⟩ := answer
  obtain ⟨log, hd⟩ := dismiss_run stale stage { u with gates }
  simp only [hd]
  rcases next with e | _ | key
  · exact hselect
  · exact hselect
  · simp only [run_bind, run_enqueueRateLimited, run_count, run_record]
    exact hselect

theorem release_run (stage : StageKey) (k : PromotionKey) (w : World) : ∃ counters log,
    ((release stage k).run w).2 = ((enqueueNext stage).run { w with
      gates := (w.gates.conclude stage k).2, counters, log }).2 := by
  unfold release
  rw [run_bind, run_atGates]
  by_cases hc : (w.gates.conclude stage k).1 = true
  · simp only [if_pos hc, run_bind, run_count, run_record]
    exact ⟨_, _, rfl⟩
  · simp only [if_neg hc, run_bind]
    exact ⟨_, _, rfl⟩

-- ---------------------------------------------------------------------------
-- Hearing of changes
-- ---------------------------------------------------------------------------

def admitted (w : World) (key : PromotionKey) : Admission → WorkQueue
  | .becameActive => w.queue.add key
  | .queued => w.queue

theorem onPromotionCreated_run {p : Promotion} (h : w.settings.worksOn p = true) :
    ∃ counters log, ((onPromotionCreated p).run w).2 = { w with
      gates := (w.gates.enroll p.stageKey (.ofPromotion p)).2
      queue := w.admitted p.key (w.gates.enroll p.stageKey (.ofPromotion p)).1
      counters, log } := by
  obtain ⟨hp, hr⟩ := Settings.worksOn_iff.mp h
  unfold onPromotionCreated
  simp only [hp, Bool.not_false, Bool.true_and, run_bind, run_isResponsibleFor, hr, if_true,
    run_count, run_atGates]
  cases (w.gates.enroll p.stageKey (.ofPromotion p)).1 with
  | becameActive => exact ⟨_, _, rfl⟩
  | queued => exact ⟨_, _, rfl⟩

theorem onPromotionCreated_pass {p : Promotion} (h : w.settings.worksOn p = false) :
    ((onPromotionCreated p).run w).2 = w := by
  unfold onPromotionCreated
  unfold Settings.worksOn at h
  cases ht : p.isTerminal with
  | true => rfl
  | false =>
    rw [ht] at h
    simp only [Bool.not_false, Bool.true_and] at h ⊢
    simp only [run_bind, run_isResponsibleFor, h]
    rfl

theorem handle_ended {c : Change} {p : Promotion} (h : c.ended? = some p) :
    ((handle c).run w).2 =
      if w.settings.isResponsibleFor p.metadata then ((release p.stageKey p.key).run w).2
      else w := by
  have hrelease (q : Promotion) : ((do
      if ← isResponsibleFor q.metadata then release q.stageKey q.key : Action Unit).run w).2 =
        if w.settings.isResponsibleFor q.metadata then ((release q.stageKey q.key).run w).2
        else w := by
    rw [run_bind, run_isResponsibleFor]
    split <;> rfl
  cases c with
  | promotionUpdated old new =>
    rcases old with _ | old <;> rcases new with _ | new <;>
      simp only [Change.ended?, reduceCtorEq] at h
    split at h
    · next hstep =>
      cases h
      rw [← hrelease p]
      unfold handle onPromotionUpdated
      simp only [if_pos hstep]
    · cases h
  | promotionDeleted q =>
    cases h
    exact hrelease p
  | promotionCreated q => cases h
  | applicationUpdated old new => cases h

theorem handle_passed {old new : Option Promotion}
    (h : (Change.promotionUpdated old new).ended? = none) :
    ((handle (.promotionUpdated old new)).run w).2 = w := by
  rcases old with _ | old <;> rcases new with _ | new
  · rfl
  · rfl
  · rfl
  · simp only [Change.ended?] at h
    split at h
    · cases h
    · next hstep =>
      unfold handle onPromotionUpdated
      simp only [if_neg hstep]
      rfl

theorem handle_application (h : w.Quiet) (old new : Option Application) {I : World → Prop}
    (hw : I w)
    (step : ∀ k p u counters log, w.store.promotion? k = some p → I u →
      u.settings.isResponsibleFor p.metadata = true →
      I { u with queue := u.queue.add p.key, counters, log }) :
    I ((handle (.applicationUpdated old new)).run w).2 := by
  rcases old with _ | old <;> rcases new with _ | app
  · exact hw
  · exact hw
  · exact hw
  · unfold handle onApplicationUpdated
    rw [run_bind, listRunning_quiet h]
    refine run_forM_inv (fun p hp u hu => ?_) hw
    obtain ⟨k, -, hk⟩ := List.mem_filterMap.mp hp
    rw [run_bind, run_isResponsibleFor]
    by_cases hr : u.settings.isResponsibleFor p.metadata = true
    · simp only [if_pos hr, run_bind, run_count, run_record, run_enqueue]
      exact step k p u _ _ hk hu hr
    · simp only [if_neg hr]
      exact hu

-- ---------------------------------------------------------------------------
-- Keys in hand
-- ---------------------------------------------------------------------------

theorem run_takeKey (w : World) : takeKey.run w =
    ((w.queue.tryGet w.now).1, { w with queue := (w.queue.tryGet w.now).2 }) := rfl

def answered (w : World) (key : PromotionKey) : Except ReconcileError Outcome → WorkQueue
  | .ok .done => w.queue.forget key
  | .ok (.requeueAfter delay) => (w.queue.forget key).addAfter w.now key delay
  | .error _ => w.queue.addRateLimited w.now key .zero

theorem onOutcome_run (key : PromotionKey) (outcome : Except ReconcileError Outcome) (w : World) :
    ∃ counters log, ((onOutcome key outcome).run w).2 =
      { w with queue := w.answered key outcome, counters, log } := by
  rcases outcome with e | _ | delay
  · cases e <;> exact ⟨_, _, rfl⟩
  · exact ⟨_, _, rfl⟩
  · exact ⟨_, _, rfl⟩

-- ---------------------------------------------------------------------------
-- Actions that may fail
-- ---------------------------------------------------------------------------

def Runs (x : ExceptT ε Action α) (w : World) (Q : α → World → Prop) : Prop :=
  ∃ a u, x.run.run w = (.ok a, u) ∧ Q a u

theorem attempt_bind (x : ExceptT ε Action α) (f : α → ExceptT ε Action β) (w : World) :
    (x >>= f).run.run w =
      match x.run.run w with
      | (.ok a, u) => (f a).run.run u
      | (.error e, u) => (.error e, u) := by
  rw [ExceptT.run_bind, run_bind]
  rcases x.run.run w with ⟨e | a, u⟩ <;> rfl

theorem attempt_lift (x : Action α) (w : World) :
    (liftM x : ExceptT ε Action α).run.run w = (.ok (x.run w).1, (x.run w).2) := rfl

theorem attempt_ok {x : ExceptT ε Action α} {f : α → ExceptT ε Action β} {b : β} {w u : World}
    (h : (x >>= f).run.run w = (.ok b, u)) :
    ∃ a v, x.run.run w = (.ok a, v) ∧ (f a).run.run v = (.ok b, u) := by
  rw [attempt_bind] at h
  rcases hx : x.run.run w with ⟨e | a, v⟩
  · rw [hx] at h
    cases h
  · exact ⟨a, v, rfl, by rwa [hx] at h⟩

theorem lift_ok {x : Action α} {a : α} {w v : World}
    (h : (liftM x : ExceptT ε Action α).run.run w = (.ok a, v)) : x.run w = (a, v) := by
  rw [attempt_lift] at h
  cases h
  rfl

theorem attempt_get (w : World) : (get : ExceptT ε Action World).run.run w = (.ok w, w) := rfl

theorem Runs.holds {x : ExceptT ε Action α} {Q : α → World → Prop} (h : Runs x w Q)
    (hx : x.run.run w = (.ok a, u)) : Q a u := by
  obtain ⟨b, v, hr, hb⟩ := h
  rw [hr] at hx
  cases hx
  exact hb

theorem Runs.ne_error {x : ExceptT ε Action α} {Q : α → World → Prop} {e : ε} (h : Runs x w Q) :
    x.run.run w ≠ (.error e, u) := by
  intro hx
  obtain ⟨b, v, hr, -⟩ := h
  rw [hr] at hx
  cases hx

theorem Runs.bind {x : ExceptT ε Action α} {f : α → ExceptT ε Action β} {R : α → World → Prop}
    {Q : β → World → Prop} (hx : Runs x w R) (hf : ∀ a u, R a u → Runs (f a) u Q) :
    Runs (x >>= f) w Q := by
  obtain ⟨a, u, hr, ha⟩ := hx
  obtain ⟨b, v, hs, hb⟩ := hf a u ha
  exact ⟨b, v, by rw [attempt_bind, hr]; exact hs, hb⟩

theorem Runs.lift {x : Action α} {Q : α → World → Prop} (h : Q (x.run w).1 (x.run w).2) :
    Runs (x : ExceptT ε Action α) w Q := ⟨_, _, rfl, h⟩

theorem Runs.forM {f : α → ExceptT ε Action PUnit} {I : List α → World → Prop} {items : List α}
    (step : ∀ x rest w, I (x :: rest) w → Runs (f x) w fun _ u => I rest u) (h : I items w) :
    Runs (items.forM f) w fun _ u => I [] u := by
  induction items generalizing w with
  | nil => exact ⟨_, _, rfl, h⟩
  | cons x items ih => exact (step x items w h).bind fun _ u hu => ih hu

theorem Runs.bind_ok {x : ExceptT ε Action α} {f : α → ExceptT ε Action β} {Q : β → World → Prop}
    (hx : x.run.run w = (.ok a, u)) (hf : Runs (f a) u Q) : Runs (x >>= f) w Q := by
  obtain ⟨b, v, hs, hb⟩ := hf
  exact ⟨b, v, by rw [attempt_bind, hx]; exact hs, hb⟩

-- ---------------------------------------------------------------------------
-- Recovery
-- ---------------------------------------------------------------------------

theorem releaseStale_idle (h : w.gates.active? stage = none) :
    (releaseStale stage).run.run w = (.ok (), w) := by
  unfold releaseStale
  simp only [attempt_bind, attempt_get, h]
  rfl

theorem releaseStale_error (h : w.gates.active? stage = some k)
    (read : (readPromotion k).run w = (.error e, u)) :
    (releaseStale stage).run.run w = (.error e, u) := by
  have hread : (ExceptT.mk (readPromotion k)).run.run w = (.error e, u) := read
  unfold releaseStale
  simp only [attempt_bind, attempt_get, h, hread]

theorem releaseStale_ok (h : w.gates.active? stage = some k)
    (read : (readPromotion k).run w = (.ok p?, u)) : ∃ counters log,
    (releaseStale stage).run.run w = (.ok (), if p?.all Promotion.isTerminal then
      { u with gates := (u.gates.conclude stage k).2, counters, log } else u) := by
  have hread : (ExceptT.mk (readPromotion k)).run.run w = (.ok p?, u) := read
  unfold releaseStale
  simp only [attempt_bind, attempt_get, h, hread]
  by_cases hall : p?.all Promotion.isTerminal = true
  · simp only [if_pos hall, attempt_bind, attempt_lift, run_atGates]
    by_cases hc : (u.gates.conclude stage k).1 = true
    · simp only [if_pos hc]
      exact ⟨_, _, rfl⟩
    · simp only [if_neg hc]
      exact ⟨_, _, rfl⟩
  · simp only [if_neg hall]
    exact ⟨u.counters, u.log, rfl⟩

theorem releaseStale_quiet (h : w.Quiet) (stage : StageKey) {Q : World → Prop}
    (idle : w.gates.active? stage = none → Q w)
    (kept : ∀ k, w.gates.active? stage = some k → w.store.hasEnded k = false → Q w)
    (freed : ∀ k counters log, w.gates.active? stage = some k → w.store.hasEnded k = true →
      Q { w with gates := (w.gates.conclude stage k).2, counters, log }) :
    Runs (releaseStale stage) w fun _ u => Q u := by
  cases ha : w.gates.active? stage with
  | none => exact ⟨_, _, releaseStale_idle ha, idle ha⟩
  | some k =>
    have hended : (w.store.promotion? k).all Promotion.isTerminal = w.store.hasEnded k := rfl
    obtain ⟨counters, log, hr⟩ := releaseStale_ok ha (readPromotion_quiet h k)
    rw [hended] at hr
    refine ⟨_, _, hr, ?_⟩
    by_cases he : w.store.hasEnded k = true
    · rw [if_pos he]
      exact freed k counters log ha he
    · rw [if_neg he]
      exact kept k ha (by simpa using he)

theorem mem_toAdmit {settings : Settings} {p : Promotion} {all : List Promotion} :
    p ∈ toAdmit settings all ↔ p ∈ all ∧ settings.worksOn p = true := by
  simp [toAdmit, Settings.worksOn]

theorem initializeQueues_run (h : w.Quiet) {A : List Promotion → World → Prop}
    (hw : A (toAdmit w.settings w.store.promotionList) w)
    (step : ∀ p rest u, A (p :: rest) u → A rest ((onPromotionCreated p).run u).2) :
    Runs initializeQueues w fun _ u => ∃ v log, u = { v with log } ∧ A [] v := by
  have hlist : (ExceptT.mk listPromotions).run.run w = (.ok w.store.promotionList, w) :=
    listPromotions_quiet h
  unfold initializeQueues
  refine Runs.bind_ok hlist ?_
  refine Runs.bind_ok rfl ?_
  refine Runs.bind (Runs.forM (fun p rest u hu => Runs.lift (step p rest u hu)) hw) ?_
  intro _ v hv
  exact ⟨_, _, rfl, v, _, rfl, hv⟩

/-- The part of a resync that goes by what there is, before it sends anybody. -/
def restore : ExceptT StoreError Action Unit := do
  (← get).gates.stages.forM releaseStale
  let _ ← initializeQueues

def sendAll (stages : List StageKey) : Action Unit :=
  stages.forM fun stage => do
    let _ ← enqueueNext stage

theorem sendAll_cons (rest : List StageKey) (w : World) :
    ((sendAll (stage :: rest)).run w).2 = ((sendAll rest).run ((enqueueNext stage).run w).2).2 :=
  rfl

/-- A resync restores, then goes over the stages again. Only the restoration can fail. -/
theorem run_resync (w : World) : resync.run.run w =
    match restore.run.run w with
    | (.ok (), u) => (.ok (), ((sendAll u.gates.stages).run u).2)
    | (.error e, u) => (.error e, u) := by
  have hsend (stages : List StageKey) (v : World) :
      (stages.forM fun stage => do
        let _ ← (enqueueNext stage : Action _) : ExceptT StoreError Action PUnit).run.run v =
        (.ok (), ((sendAll stages).run v).2) := by
    induction stages generalizing v with
    | nil => rfl
    | cons stage rest ih =>
      rw [List.forM, attempt_bind, attempt_bind, attempt_lift, sendAll_cons]
      exact ih _
  unfold restore resync
  simp only [attempt_bind, attempt_get]
  rcases (w.gates.stages.forM releaseStale).run.run w with ⟨e | _, v⟩
  · rfl
  · simp only
    rcases initializeQueues.run.run v with ⟨e | _, u⟩
    · rfl
    · exact hsend u.gates.stages u

theorem resync_of_restore (h : restore.run.run w = (.ok (), u)) :
    (resync.run.run w).2 = ((sendAll u.gates.stages).run u).2 := by
  rw [run_resync, h]

/-- The restoration goes over the stages and over the promotions to admit; each round has an
invariant that speaks of what is to come. -/
theorem restore_run {F : List StageKey → World → Prop} {A : List Promotion → World → Prop}
    {D : World → Prop} (hw : F w.gates.stages w)
    (free : ∀ stage rest u, F (stage :: rest) u → Runs (releaseStale stage) u fun _ v => F rest v)
    (freed : ∀ u, F [] u → u.Quiet ∧ A (toAdmit u.settings u.store.promotionList) u)
    (enroll : ∀ p rest u, A (p :: rest) u → A rest ((onPromotionCreated p).run u).2)
    (enrolled : ∀ u log, A [] u → D { u with log }) : Runs restore w fun _ u => D u := by
  unfold restore
  refine Runs.bind_ok rfl ?_
  refine Runs.bind (Runs.forM free hw) fun _ u hu => ?_
  obtain ⟨hq, hA⟩ := freed u hu
  refine Runs.bind (initializeQueues_run hq hA enroll) ?_
  rintro _ _ ⟨v, log, rfl, hv⟩
  exact ⟨_, _, rfl, enrolled v log hv⟩

theorem sendAll_run {D : List StageKey → World → Prop} {stages : List StageKey} (hw : D stages w)
    (send : ∀ stage rest u, D (stage :: rest) u → D rest ((enqueueNext stage).run u).2) :
    D [] ((sendAll stages).run w).2 := by
  induction stages generalizing w with
  | nil => exact hw
  | cons stage rest ih =>
    rw [sendAll_cons]
    exact ih (send stage rest w hw)

theorem runs_resync {F D : List StageKey → World → Prop} {A : List Promotion → World → Prop}
    (hw : F w.gates.stages w)
    (free : ∀ stage rest u, F (stage :: rest) u → Runs (releaseStale stage) u fun _ v => F rest v)
    (freed : ∀ u, F [] u → u.Quiet ∧ A (toAdmit u.settings u.store.promotionList) u)
    (enroll : ∀ p rest u, A (p :: rest) u → A rest ((onPromotionCreated p).run u).2)
    (enrolled : ∀ u log, A [] u → D u.gates.stages { u with log })
    (send : ∀ stage rest u, D (stage :: rest) u → D rest ((enqueueNext stage).run u).2) :
    Runs resync w fun _ u => D [] u := by
  obtain ⟨_, u, hr, hu⟩ := restore_run (D := fun u => D u.gates.stages u) hw free freed enroll
    enrolled
  exact ⟨(), _, by rw [run_resync, hr], sendAll_run hu send⟩

theorem resync_run {F D : List StageKey → World → Prop} {A : List Promotion → World → Prop}
    (hw : F w.gates.stages w)
    (free : ∀ stage rest u, F (stage :: rest) u → Runs (releaseStale stage) u fun _ v => F rest v)
    (freed : ∀ u, F [] u → u.Quiet ∧ A (toAdmit u.settings u.store.promotionList) u)
    (enroll : ∀ p rest u, A (p :: rest) u → A rest ((onPromotionCreated p).run u).2)
    (enrolled : ∀ u log, A [] u → D u.gates.stages { u with log })
    (send : ∀ stage rest u, D (stage :: rest) u → D rest ((enqueueNext stage).run u).2) :
    D [] (resync.run.run w).2 := by
  obtain ⟨_, u, hr, hu⟩ := runs_resync hw free freed enroll enrolled send
  rw [hr]
  exact hu

theorem onDelivery_change (c : Change) (w : World) :
    ((onDelivery (.change c)).run w).2 = ((handle c).run w).2 := rfl

theorem onDelivery_lagged (missed : Nat) (w : World) : ((onDelivery (.lagged missed)).run w).2 =
    (resync.run.run { w with log := .watchLagged missed :: w.log }).2 := by
  unfold onDelivery
  rw [run_bind, run_record, run_bind, run_pure]

end StageGate.World
