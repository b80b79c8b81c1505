import StageGate.Proofs.Promoter.Promoted

/-!
# The life cycle of a promotion

What one attempt at a promotion does where nobody comes between. It writes nothing but the
promotion's status, and that at most twice: once when the promotion starts to run, once when it
ends. Main statement: `reconcile_lifecycle`, which says for each way out of the attempt what the
store, the gates and the work queue are then, and what it answers.
-/

namespace StageGate

-- ---------------------------------------------------------------------------
-- Status writes
-- ---------------------------------------------------------------------------

def Change.Moves (c : Change) (key : PromotionKey) (source target : Phase) : Prop :=
  ∃ old new, c = .promotionUpdated (some old) (some new) ∧ old.key = key ∧ new.key = key ∧
    old.phase = source ∧ new.phase = target

namespace Store

variable {s s' s'' : Store} {p new : Promotion} {key : PromotionKey}

structure SameButStatus (s s' : Store) (key : PromotionKey) : Prop where
  defaultNamespace : s'.defaultNamespace = s.defaultNamespace
  stages : s'.stages = s.stages
  applications : s'.applications = s.applications
  others : ∀ k, k ≠ key → s'.promotion? k = s.promotion? k
  own : (s'.promotion? key).map Promotion.bare = (s.promotion? key).map Promotion.bare

theorem SameButStatus.refl (s : Store) (key : PromotionKey) : s.SameButStatus s key :=
  ⟨rfl, rfl, rfl, fun _ _ => rfl, rfl⟩

theorem SameButStatus.trans (h : s.SameButStatus s' key) (h' : s'.SameButStatus s'' key) :
    s.SameButStatus s'' key where
  defaultNamespace := h'.defaultNamespace.trans h.defaultNamespace
  stages := h'.stages.trans h.stages
  applications := h'.applications.trans h.applications
  others k hk := (h'.others k hk).trans (h.others k hk)
  own := h'.own.trans h.own

/-- At most one write lies between two stores, and it takes a promotion from one phase to one of
some others. -/
structure Moved (s s' : Store) (key : PromotionKey) (source : Phase) (Target : Phase → Prop) :
    Prop where
  same : s.SameButStatus s' key
  told : ∃ cs, s'.feed.changes = s.feed.changes ++ cs ∧ cs.length ≤ 1 ∧
    ∀ c ∈ cs, ∃ target, Target target ∧ c.Moves key source target

theorem Moved.refl (s : Store) (key : PromotionKey) (source : Phase) (Target : Phase → Prop) :
    s.Moved s key source Target :=
  ⟨.refl s key, [], by simp⟩

theorem updateStatus_moved {version : UInt64} {status : PromotionStatus} {Target : Phase → Prop}
    (stored : s.promotion? p.key = some p)
    (write : s.updateStatus p.key version status = .ok (new, s')) (target : Target status.phase) :
    new = { p.stamped s.nextVersion with status } ∧ s'.promotion? p.key = some new ∧
      s.Moved s' p.key p.phase Target := by
  have haccepted : s.Accepted s' (.updateStatus p.key version status) :=
    accepted (map_snd_ok.mpr ⟨new, write⟩)
  obtain ⟨old, hold, -, rfl, hpromotions, hstages, hfeed⟩ := updateStatus_ok write
  obtain rfl : p = old := Option.some.inj (stored.symm.trans hold)
  have hat := promotion?_insert hpromotions
  have hown : s'.promotion? p.key = some { p.stamped s.nextVersion with status } := by
    rw [hat, if_pos rfl]
  have happlications : s'.applications = s.applications := by
    cases haccepted with
    | updateStatus key status old stored answer next => exact next ▸ rfl
  refine ⟨rfl, hown, ⟨haccepted.defaultNamespace, hstages, happlications, fun k hk => ?_, ?_⟩, _,
    by rw [hfeed, Feed.changes_emit], by simp, fun c hc => ?_⟩
  · rw [hat, if_neg hk]
  · rw [hown, stored]
    rfl
  · rw [List.mem_singleton.mp hc]
    exact ⟨_, target, p, _, rfl, rfl, rfl, rfl, rfl⟩

def started (s : Store) (p : Promotion) : Promotion :=
  if p.phase = .pending then { p.stamped s.nextVersion with status := .ofPhase .running } else p

end Store

section
variable {s s' : Store} {p running : Promotion} {outcome : Except ReconcileError Outcome}

theorem Marked.moved (hm : Marked s p running s') (stored : s.promotion? p.key = some p) :
    running = s.started p ∧ s.Moved s' p.key .pending (· = .running) := by
  cases hm with
  | marked hpending hwrite =>
    obtain ⟨rfl, -, hmoved⟩ : _ ∧ _ ∧ s.Moved s' p.key p.phase (· = .running) :=
      Store.updateStatus_moved stored hwrite rfl
    rw [Store.started, if_pos hpending]
    exact ⟨rfl, hpending ▸ hmoved⟩
  | kept hopen =>
    rw [Store.started, if_neg hopen]
    exact ⟨rfl, .refl s p.key _ _⟩

theorem Concluded.moved (hd : Concluded mechanics s p outcome s')
    (stored : s.promotion? p.key = some p) (running : p.phase = .running) :
    s.Moved s' p.key .running (·.isTerminal = true) := by
  cases hd with
  | ended hend hwrite =>
    exact running ▸ (Store.updateStatus_moved stored hwrite (terminal_of_conclusion hend)).2.2
  | unfinished hopen hagain => exact .refl s p.key _ _

/-- An attempt that is to be made again has stored nothing since the promotion runs. -/
theorem Concluded.open_of_ne (hd : Concluded mechanics s p outcome s')
    (stored : s.promotion? p.key = some p) (again : outcome ≠ .ok .done) :
    s'.promotion? p.key = some p := by
  cases hd with
  | ended hend hwrite => exact absurd rfl again
  | unfinished hopen hagain => exact stored

theorem Concluded.end_of_done (hd : Concluded mechanics s p (.ok .done) s')
    (stored : s.promotion? p.key = some p) : ∃ q, s'.promotion? p.key = some q ∧
      q.isTerminal = true ∧ conclusion mechanics (s.stage? p.stageKey) p = some q.status := by
  cases hd with
  | ended hend hwrite =>
    have hterminal := terminal_of_conclusion hend
    obtain ⟨rfl, hown, -⟩ : _ ∧ _ ∧ s.Moved s' p.key p.phase (·.isTerminal = true) :=
      Store.updateStatus_moved stored hwrite hterminal
    exact ⟨_, hown, hterminal, hend⟩
  | unfinished hopen hagain => exact absurd rfl hagain

end

namespace World

variable {w : World} {key : PromotionKey} {p running : Promotion} {mechanics : Mechanics}

-- ---------------------------------------------------------------------------
-- The answer of an attempt that has the stage
-- ---------------------------------------------------------------------------

/-- What the mechanics answer about a promotion that has its stage; nothing, if there is no such
stage and they are not asked. -/
def asked (mechanics : Mechanics) (w : World) (p : Promotion) : Option Answer :=
  (w.store.stage? p.stageKey).map fun stage => mechanics stage (w.store.started p)

def outcomeOf (settings : Settings) (key : PromotionKey) (stageKey : StageKey) :
    Option Answer → Except ReconcileError Outcome
  | some (.status status) =>
    .ok (if status.phase.isTerminal then .done else .requeueAfter settings.requeueInterval)
  | some (.transient text) => .error (.transient key stageKey text)
  | some .crash => .error (.crashed key)
  | some (.structural _) | none => .ok .done

theorem outcomeOf_again (settings : Settings) (key : PromotionKey) (stageKey : StageKey)
    (answer? : Option Answer) (delay : Duration) :
    outcomeOf settings key stageKey answer? = .ok (.requeueAfter delay) ↔
      delay = settings.requeueInterval ∧
        ∃ status, answer? = some (.status status) ∧ status.phase.isTerminal = false := by
  unfold outcomeOf
  rcases answer? with _ | status | text | text | _
  case some.status =>
    by_cases hterminal : status.phase.isTerminal = true
    · simp [hterminal]
    · simp only [if_neg hterminal, Except.ok.injEq, Outcome.requeueAfter.injEq]
      exact ⟨fun h => ⟨h.symm, status, rfl, by simpa using hterminal⟩, fun h => h.1.symm⟩
  all_goals simp

theorem outcomeOf_error (settings : Settings) (key : PromotionKey) (stageKey : StageKey)
    (answer? : Option Answer) (e : ReconcileError) :
    outcomeOf settings key stageKey answer? = .error e ↔
      (∃ text, answer? = some (.transient text) ∧ e = .transient key stageKey text) ∨
        answer? = some .crash ∧ e = .crashed key := by
  unfold outcomeOf
  rcases answer? with _ | status | text | text | _
  case some.transient =>
    simp only [Except.error.injEq, Option.some.injEq, Answer.transient.injEq, exists_eq_left',
      reduceCtorEq, false_and, or_false]
    exact eq_comm
  case some.crash =>
    simp only [Except.error.injEq, Option.some.injEq, reduceCtorEq, false_and, exists_false,
      false_or, true_and]
    exact eq_comm
  all_goals simp

theorem finish_outcome (h : w.Quiet) (stored : w.store.promotion? p.key = some p) (stage : Stage)
    (answer : Answer) : ((finish ⟨p.key, p.stageKey, stage, p⟩ answer).run.run w).1 =
      outcomeOf w.settings p.key p.stageKey (some answer) := by
  have hset (status : PromotionStatus) : ∃ new u,
      (setStatus p status).run.run w = (.ok (some new), u) := by
    obtain ⟨new, s', hw⟩ := Store.updateStatus_current stored status
    exact ⟨new, _, setStatus_quiet h hw⟩
  unfold finish outcomeOf
  cases answer with
  | status status =>
    obtain ⟨new, u, hrun⟩ := hset status
    by_cases ht : status.phase.isTerminal = true
    · simp only [if_pos ht, attempt_bind, hrun]
      rfl
    · simp only [if_neg ht]
      rfl
  | structural text =>
    obtain ⟨new, u, hrun⟩ := hset (.failed (ReconcileError.promotingMessage p.key p.stageKey text))
    simp only [attempt_bind, hrun]
    rfl
  | transient text => rfl
  | crash => rfl

theorem prepare_activated (h : w.Quiet) (stored : w.store.promotion? p.key = some p)
    (unended : p.isTerminal = false)
    (claim : (w.gates.claim p.stageKey (.ofPromotion p)).1 = .activated) :
    ∃ counters, (prepare p.key).run.run w = (advance p.key p.stageKey).run.run
      { w with gates := (w.gates.claim p.stageKey (.ofPromotion p)).2, counters } := by
  let counted : World :=
    { w with counters := { w.counters with reconciles := w.counters.reconciles + 1 } }
  have hread := readPromotion_quiet (w := counted) h p.key
  refine ⟨counted.counters, ?_⟩
  unfold prepare proceed
  simp only [attempt_bind, attempt_lift, run_count, hread, counted, stored, unended,
    Bool.false_eq_true, if_false, claimStage_run, claim, if_true]

theorem reconcile_outcome (h : w.Quiet) (mechanics : Mechanics)
    (stored : w.store.promotion? p.key = some p) (unended : p.isTerminal = false)
    (claim : (w.gates.claim p.stageKey (.ofPromotion p)).1 = .activated) :
    ((reconcile mechanics p.key).run.run w).1 =
      outcomeOf w.settings p.key p.stageKey (asked mechanics w p) := by
  obtain ⟨counters, hprepare⟩ := prepare_activated h stored unended claim
  obtain ⟨running, s', counters, log, hmarked, hadvance⟩ := advance_quiet
    (w := { w with gates := (w.gates.claim p.stageKey (.ofPromotion p)).2, counters })
    h stored unended
  obtain ⟨hown, hbare, -, hstages⟩ := hmarked.spec stored unended
  obtain ⟨rfl, -⟩ := hmarked.moved stored
  have hstage : s'.stage? p.stageKey = w.store.stage? p.stageKey := by
    rw [Store.stage?, hstages, Store.stage?]
  rw [hstage] at hadvance
  unfold asked
  cases hs : w.store.stage? p.stageKey with
  | none =>
    obtain ⟨new, s'', log, -, hrun⟩ := hs ▸ hadvance
    rw [reconcile, attempt_bind, hprepare, hrun]
    rfl
  | some stage =>
    have hrun := hs ▸ hadvance
    rw [reconcile_prepared (hprepare.trans hrun)]
    let marked : World :=
      { w with gates := (w.gates.claim p.stageKey (.ofPromotion p)).2, store := s', counters, log }
    have hfinish := finish_outcome (w := marked) (p := w.store.started p) h hown stage
      (mechanics stage (w.store.started p))
    rw [Promotion.key_of_bare hbare, Promotion.stageKey_of_bare hbare] at hfinish
    exact hfinish

-- ---------------------------------------------------------------------------
-- The ways out
-- ---------------------------------------------------------------------------

/-- What comes of an attempt that did not get the stage. Its promotion waits; at an idle stage the
first one that waits there, and is not past, is sent to the work queue. -/
structure PutOff (w : World) (p : Promotion) (outcome : Except ReconcileError Outcome)
    (u : World) : Prop where
  done : outcome = .ok .done
  store : u.store = w.store
  waits : p.key ∈ u.gates.pending p.stageKey
  busy : w.gates.active? p.stageKey ≠ none → u.queue = w.queue
  idle : w.gates.active? p.stageKey = none → ∃ next,
    ((w.gates.claim p.stageKey (.ofPromotion p)).2.pending p.stageKey).find?
      (!w.store.hasEnded ·) = some next ∧
    u.gates.peek? p.stageKey = some next ∧ u.queue = w.queue.addRateLimited w.now next .zero

structure Served (mechanics : Mechanics) (w : World) (p : Promotion)
    (outcome : Except ReconcileError Outcome) (u : World) : Prop where
  held : u.gates.active? p.stageKey = some p.key
  queue : u.queue = w.queue
  again : ∀ delay, outcome = .ok (.requeueAfter delay) ↔ delay = w.settings.requeueInterval ∧
    ∃ status, asked mechanics w p = some (.status status) ∧ status.phase.isTerminal = false
  failed : ∀ e, outcome = .error e ↔
    (∃ text, asked mechanics w p = some (.transient text) ∧ e = .transient p.key p.stageKey text) ∨
      asked mechanics w p = some .crash ∧ e = .crashed p.key
  unfinished : outcome ≠ .ok .done →
    u.store.promotion? p.key = some (w.store.started p) ∧ (w.store.started p).phase = .running
  finished : outcome = .ok .done → ∃ q, u.store.promotion? p.key = some q ∧ q.isTerminal = true ∧
    conclusion mechanics (w.store.stage? p.stageKey) (w.store.started p) = some q.status

/-- At an idle stage where someone waits who is not past, the first of these is sent to the queue,
and stands first in line from then on. -/
theorem enqueueNext_idle {stage : StageKey} (h : w.Quiet) (idle : w.gates.active? stage = none)
    (waits : key ∈ w.gates.pending stage) (unended : w.store.hasEnded key = false) :
    ∃ next gates counters log, (w.gates.pending stage).find? (!w.store.hasEnded ·) = some next ∧
      gates.peek? stage = some next ∧ key ∈ gates.pending stage ∧
      ((enqueueNext stage).run w).2 = { w with
        gates, queue := w.queue.addRateLimited w.now next .zero, counters, log } := by
  obtain ⟨counters, log, hrun⟩ := enqueueNext_quiet h stage
  have hgate : (w.gates.passEnded w.store.hasEnded stage).gate stage =
      (w.gates.gate stage).passEnded w.store.hasEnded := by rw [Gates.gate_passEnded, if_pos rfl]
  have hholder : ((w.gates.passEnded w.store.hasEnded stage).gate stage).holder = none := by
    rw [hgate, Gate.holder_passEnded]
    exact idle
  obtain ⟨next, hfind⟩ :
      ∃ next, (w.gates.pending stage).find? (!w.store.hasEnded ·) = some next :=
    Option.isSome_iff_exists.mp (List.find?_isSome.mpr ⟨key, waits, by simp [unended]⟩)
  have hnext : ((w.gates.passEnded w.store.hasEnded stage).gate stage).next? = some next := by
    rw [hgate, Gate.next?_passEnded_of_idle idle]
    exact hfind
  have hpeek : (w.gates.passEnded w.store.hasEnded stage).peek? stage = some next := by
    rwa [Gate.next?, hholder] at hnext
  have hwaits : ((w.gates.passEnded w.store.hasEnded stage).gate stage).Stands key := by
    rw [hgate]
    exact Gate.stands_passEnded (.inr waits) unended
  have hstays := hwaits.resolve_left fun hheld => by rw [hholder] at hheld; cases hheld
  refine ⟨next, _, counters, log, hfind, hpeek, hstays, ?_⟩
  rw [hrun, dispatched, hnext]

theorem putOff_busy {u : World} {other : PromotionKey}
    (claim : (w.gates.claim p.stageKey (.ofPromotion p)).1 = .activeElsewhere other)
    (store : u.store = w.store) (queue : u.queue = w.queue)
    (gates : u.gates = (w.gates.claim p.stageKey (.ofPromotion p)).2) :
    w.PutOff p (.ok .done) u := by
  obtain ⟨hsame, hwaits⟩ := Gates.waits_of_put_off (by rw [claim]; simp)
  have hafter : (w.gates.claim p.stageKey (.ofPromotion p)).2.active? p.stageKey = some other := by
    unfold Gates.active?
    rw [Gates.gate_claim_self]
    exact (Gate.holder_of_activeElsewhere claim).1
  rw [hsame] at hafter
  refine ⟨rfl, store, gates ▸ hwaits, fun _ => queue, fun hidle => ?_⟩
  rw [hafter] at hidle
  cases hidle

theorem putOff_behind (h : w.Quiet) {head : PromotionKey} (unended : w.store.hasEnded p.key = false)
    (claim : (w.gates.claim p.stageKey (.ofPromotion p)).1 = .notNext head) (counters : Counters)
    (log : List LogRecord) : w.PutOff p (.ok .done)
      ((enqueueNext p.stageKey).run
        { w with gates := (w.gates.claim p.stageKey (.ofPromotion p)).2, counters, log }).2 := by
  obtain ⟨hsame, hwaits⟩ := Gates.waits_of_put_off (by rw [claim]; simp)
  have hafter : (w.gates.claim p.stageKey (.ofPromotion p)).2.active? p.stageKey = none := by
    unfold Gates.active?
    rw [Gates.gate_claim_self]
    exact Gate.holder_of_notNext claim
  have hbefore : w.gates.active? p.stageKey = none := hsame.symm.trans hafter
  obtain ⟨next, gates, counters', log', hfind, hpeek, hstays, hrun⟩ := enqueueNext_idle
    (w := { w with gates := (w.gates.claim p.stageKey (.ofPromotion p)).2, counters, log })
    h hafter hwaits unended
  rw [hrun]
  refine ⟨rfl, rfl, hstays, fun hbusy => absurd hbefore hbusy, fun _ => ⟨next, hfind, hpeek, ?_⟩⟩
  dsimp only

theorem served_of_ran {outcome : Except ReconcileError Outcome} {s s' : Store}
    (stored : w.store.promotion? p.key = some p) (unended : p.isTerminal = false)
    (claim : (w.gates.claim p.stageKey (.ofPromotion p)).1 = .activated)
    (marked : Marked w.store p running s) (concluded : Concluded mechanics s running outcome s')
    (answer : outcome = outcomeOf w.settings p.key p.stageKey (asked mechanics w p))
    (counters : Counters) (log : List LogRecord) : Served mechanics w p outcome
      { w with
        gates := (w.gates.claim p.stageKey (.ofPromotion p)).2, store := s', counters, log } := by
  obtain ⟨hown, hbare, hphase, hstages⟩ := marked.spec stored unended
  obtain ⟨rfl, -⟩ := marked.moved stored
  have hkey := Promotion.key_of_bare hbare
  have hstage : s.stage? (w.store.started p).stageKey = w.store.stage? p.stageKey := by
    rw [Promotion.stageKey_of_bare hbare, Store.stage?, hstages, Store.stage?]
  refine ⟨Gates.active?_of_activated claim, rfl, fun delay => ?_, fun e => ?_, fun hopen => ?_,
    fun hdone => ?_⟩
  · rw [answer]
    exact outcomeOf_again ..
  · rw [answer]
    exact outcomeOf_error ..
  · exact ⟨hkey ▸ concluded.open_of_ne hown hopen, hphase⟩
  · subst hdone
    obtain ⟨q, hq, hterminal, hend⟩ := concluded.end_of_done hown
    exact ⟨q, hkey ▸ hq, hterminal, hstage ▸ hend⟩

end World

open World

section
variable {w u : World} {key : PromotionKey} {mechanics : Mechanics}
  {outcome : Except ReconcileError Outcome}

/-- Whichever way an attempt goes, it moves its promotion from pending to running at most, and then
from running to an end. -/
theorem Tried.moved (hr : Tried mechanics key w outcome u) (h : w.Quiet) (keyed : w.store.Keyed) :
    ∃ mid, w.store.Moved mid key .pending (· = .running) ∧
      mid.Moved u.store key .running (·.isTerminal = true) := by
  have hsame {u : World} (hu : u.store = w.store) :
      ∃ mid, w.store.Moved mid key .pending (· = .running) ∧
        mid.Moved u.store key .running (·.isTerminal = true) :=
    ⟨w.store, .refl _ _ _ _, hu ▸ .refl _ _ _ _⟩
  cases hr with
  | ended past counters => exact hsame rfl
  | busy p stored unended other claim counters log => exact hsame rfl
  | behind p stored unended head claim counters log =>
    obtain rfl := keyed key p stored
    have hopen : w.store.hasEnded p.key = false := by rw [Store.hasEnded_of_stored stored, unended]
    exact hsame (putOff_behind h hopen claim counters log).store
  | ran p stored unended claim running s s' marked concluded counters log =>
    obtain rfl := keyed key p stored
    obtain ⟨hown, hbare, hphase, -⟩ := marked.spec stored unended
    have hend := concluded.moved hown hphase
    rw [Promotion.key_of_bare hbare] at hend
    exact ⟨s, (marked.moved stored).2, hend⟩

theorem Tried.of_ended (hr : Tried mechanics key w outcome u) (past : w.store.hasEnded key = true) :
    outcome = .ok .done ∧ u.store = w.store ∧ u.gates = w.gates ∧ u.queue = w.queue := by
  have hpast {p : Promotion} (stored : w.store.promotion? key = some p) : p.isTerminal = true := by
    rwa [Store.hasEnded_of_stored stored] at past
  cases hr with
  | ended past counters => exact ⟨rfl, rfl, rfl, rfl⟩
  | busy p stored unended => cases unended.symm.trans (hpast stored)
  | behind p stored unended => cases unended.symm.trans (hpast stored)
  | ran p stored unended => cases unended.symm.trans (hpast stored)

theorem Tried.putOff (hr : Tried mechanics key w outcome u) (h : w.Quiet) (keyed : w.store.Keyed)
    {p : Promotion} (stored : w.store.promotion? key = some p) (unended : p.isTerminal = false)
    (claim : (w.gates.claim p.stageKey (.ofPromotion p)).1 ≠ .activated) :
    w.PutOff p outcome u := by
  obtain rfl := keyed key p stored
  have hopen : w.store.hasEnded p.key = false := by rw [Store.hasEnded_of_stored stored, unended]
  cases hr with
  | ended past counters => cases hopen.symm.trans past
  | busy q hq hunended other hclaim counters log =>
    obtain rfl := Option.some.inj (stored.symm.trans hq)
    exact putOff_busy hclaim rfl rfl rfl
  | behind q hq hunended head hclaim counters log =>
    obtain rfl := Option.some.inj (stored.symm.trans hq)
    exact putOff_behind h hopen hclaim counters log
  | ran q hq hunended hclaim =>
    obtain rfl := Option.some.inj (stored.symm.trans hq)
    exact absurd hclaim claim

theorem Tried.served (hr : Tried mechanics key w outcome u) (keyed : w.store.Keyed)
    {p : Promotion} (stored : w.store.promotion? key = some p) (unended : p.isTerminal = false)
    (claim : (w.gates.claim p.stageKey (.ofPromotion p)).1 = .activated)
    (answer : outcome = outcomeOf w.settings p.key p.stageKey (asked mechanics w p)) :
    Served mechanics w p outcome u := by
  obtain rfl := keyed key p stored
  cases hr with
  | ended past counters =>
    rw [Store.hasEnded_of_stored stored, unended] at past
    cases past
  | busy q hq hunended other hclaim counters log =>
    obtain rfl := Option.some.inj (stored.symm.trans hq)
    cases claim.symm.trans hclaim
  | behind q hq hunended head hclaim counters log =>
    obtain rfl := Option.some.inj (stored.symm.trans hq)
    cases claim.symm.trans hclaim
  | ran q hq hunended hclaim running s s' marked concluded counters log =>
    obtain rfl := Option.some.inj (stored.symm.trans hq)
    exact served_of_ran stored unended hclaim marked concluded answer counters log

end

/-- One attempt at a promotion, at any gates and with any queue, where nobody comes between and no
call fails. It changes the promotion's status and version and nothing else in the store, first from
pending to running and then from running to an end, each at most once. If the promotion is past it
does nothing. If it does not get the stage, the promotion is put off; if it does, what the mechanics
answer decides. -/
theorem reconcile_lifecycle {w : World} (quiet : w.Quiet) (keyed : w.store.Keyed)
    (mechanics : Mechanics) (key : PromotionKey) :
    let r := (reconcile mechanics key).run.run w
    w.store.SameButStatus r.2.store key ∧
    (∃ mid, w.store.Moved mid key .pending (· = .running) ∧
      mid.Moved r.2.store key .running (·.isTerminal = true)) ∧
    (w.store.hasEnded key = true → r.1 = .ok .done ∧ r.2.store = w.store ∧ r.2.gates = w.gates ∧
      r.2.queue = w.queue) ∧
    ∀ p, w.store.promotion? key = some p → p.isTerminal = false →
      ((w.gates.claim p.stageKey (.ofPromotion p)).1 ≠ .activated → w.PutOff p r.1 r.2) ∧
      ((w.gates.claim p.stageKey (.ofPromotion p)).1 = .activated →
        Served mechanics w p r.1 r.2) := by
  intro r
  have htried : Tried mechanics key w r.1 r.2 := reconcile_quiet quiet (keyed key) mechanics
  obtain ⟨mid, hstart, hend⟩ := htried.moved quiet keyed
  refine ⟨hstart.same.trans hend.same, ⟨mid, hstart, hend⟩, htried.of_ended,
    fun p stored unended => ⟨htried.putOff quiet keyed stored unended, fun claim => ?served⟩⟩
  case served =>
    refine htried.served keyed stored unended claim ?_
    obtain rfl := keyed key p stored
    exact reconcile_outcome quiet mechanics stored unended claim

namespace World.Sample

open Store.Sample

def created : World :=
  World.start {} (Store.afterAll { defaultNamespace := "argocd" }
    [.upsertStage stage, .create promotion])

def unhurried : Mechanics := fun _ _ => .status (.ofPhase .running)

theorem reconcile_lifecycle_sample : created.Quiet ∧ created.store.Keyed ∧
    let r := (reconcile unhurried key).run.run created
    r.1 = .ok (.requeueAfter created.settings.requeueInterval) ∧
    r.2.gates.active? promotion.stageKey = some key ∧
    ∃ p, r.2.store.promotion? key = some p ∧ p.phase = .running := by
  have hkeyed : created.store.Keyed := Store.afterAll_inv (Store.keyed_empty "argocd")
    (fun h hw => h.write hw) [.upsertStage stage, .create promotion]
  have hquiet : created.Quiet := rfl
  obtain ⟨-, -, -, hopen⟩ := reconcile_lifecycle hquiet hkeyed unhurried key
  have hstored : created.store.promotion? key = some (promotion.stamped 2) := by decide +kernel
  have hserved := (hopen _ hstored (by decide)).2 (by decide +kernel)
  have hagain := (hserved.again created.settings.requeueInterval).mpr
    ⟨rfl, .ofPhase .running, by decide +kernel, rfl⟩
  refine ⟨hquiet, hkeyed, hagain, hserved.held, _, hserved.unfinished ?_⟩
  rw [hagain]
  simp

end World.Sample

end StageGate
