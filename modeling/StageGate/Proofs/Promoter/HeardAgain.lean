import Mathlib.Data.List.DropRight
import StageGate.Proofs.Promoter.LateEvent

/-!
# Changes that are heard of again

A watch may tell of one change more than once. The second time comes to nothing, in every state the
promoter can be in: each gate stays as the first time left it, and the queue awaits what it awaited.
Main statement: `heard_again`.

An arrival or an end has nothing left to do at a gate that it moved before. The queue does change: a
promotion that is sent for again has one more failure to its name, and its key lies in wait twice.
-/

namespace StageGate

namespace Gate

variable {order : Entry → Entry → Ordering} {g : Gate} {e : Entry} {k : PromotionKey}
  {ended : PromotionKey → Bool}

theorem push_of_pending (h : e.key ∈ g.pending) : g.push order e = g := by
  rw [push, Backlog.push_of_known (contains_iff.mpr h)]

theorem enroll_enroll : (g.enroll order e).2.enroll order e = g.enroll order e := by
  cases hh : g.holder with
  | none =>
    rw [enroll_of_idle hh]
    exact enroll_of_holder rfl
  | some holder =>
    by_cases hk : holder = e.key
    · subst hk
      rw [enroll_of_holder hh]
      exact enroll_of_holder hh
    · have hline : e.key ∈ (g.push order e).pending := mem_pending_push.mpr (.inl rfl)
      rw [enroll_of_other hh hk, enroll_of_other (g := g.push order e) hh hk, push_of_pending hline]

theorem holder_conclude_ne : (g.conclude k).2.holder ≠ some k := by
  unfold conclude
  split
  · simp
  · assumption

theorem passEnded_passEnded : (g.passEnded ended).passEnded ended = g.passEnded ended := by
  unfold passEnded
  split
  · rfl
  · simp only [List.dropWhile_idempotent _ _]

/-- The gate once a promotion's turn is over and those that have ended are gone from the front. -/
def passOn (ended : PromotionKey → Bool) (k : PromotionKey) (g : Gate) : Gate :=
  (g.conclude k).2.passEnded ended

theorem passOn_passOn : (g.passOn ended k).passOn ended k = g.passOn ended k := by
  have hfree : (g.passOn ended k).holder ≠ some k := by
    unfold passOn
    rw [holder_passEnded]
    exact holder_conclude_ne
  have hsame : ((g.passOn ended k).conclude k).2 = g.passOn ended k := by
    rw [conclude_of_not_holder hfree]
  calc ((g.passOn ended k).conclude k).2.passEnded ended
      = (g.passOn ended k).passEnded ended := by rw [hsame]
    _ = g.passOn ended k := passEnded_passEnded

end Gate

-- ---------------------------------------------------------------------------
-- Asking for keys again
-- ---------------------------------------------------------------------------

namespace WorkQueue

variable {q q' q'' : WorkQueue} {j k : PromotionKey} {keys : List PromotionKey}

/-- A queue once it was asked for some keys. A closed one takes no notice. -/
structure AskedFor (q : WorkQueue) (keys : List PromotionKey) (q' : WorkQueue) : Prop where
  closed : q'.closed = q.closed
  awaits : ∀ j, q'.Awaits j ↔ q.closed = false ∧ j ∈ keys ∨ q.Awaits j

theorem askedFor_none (q : WorkQueue) : q.AskedFor [] q := ⟨rfl, by simp⟩

theorem AskedFor.append {more : List PromotionKey} (h : q.AskedFor keys q')
    (h' : q'.AskedFor more q'') : q.AskedFor (keys ++ more) q'' where
  closed := h'.closed.trans h.closed
  awaits j := by
    rw [h'.awaits, h.awaits, h.closed, List.mem_append]
    grind

theorem AskedFor.again (h : q.AskedFor keys q') (h' : q'.AskedFor keys q'') :
    q''.Awaits j ↔ q'.Awaits j := by
  rw [h'.awaits, h.awaits, h.closed]
  tauto

theorem askedFor_add (q : WorkQueue) (k : PromotionKey) : q.AskedFor [k] (q.add k) where
  closed := closed_add q k
  awaits j := by
    cases hc : q.closed with
    | true => simp [add_of_closed hc]
    | false => simp [awaits_add hc]

theorem askedFor_foldl_add (keys : List PromotionKey) (q : WorkQueue) :
    q.AskedFor keys (keys.foldl add q) := by
  induction keys generalizing q with
  | nil => exact askedFor_none q
  | cons k keys ih => exact (askedFor_add q k).append (ih (q.add k))

theorem awaits_addRateLimited_of_closed (hc : q.closed = true) (now : Instant)
    (stretch : Duration) : (q.addRateLimited now k stretch).Awaits j ↔ q.Awaits j := by
  let counted : WorkQueue := { q with backoff := (q.backoff.record k stretch).2 }
  have hcounted : counted.closed = true := hc
  have hsame : q.addRateLimited now k stretch = counted := addAfter_of_closed hcounted now _
  rw [hsame]
  rfl

theorem askedFor_addRateLimited (q : WorkQueue) (now : Instant) (k : PromotionKey)
    (stretch : Duration) : q.AskedFor [k] (q.addRateLimited now k stretch) where
  closed := closed_addRateLimited now stretch
  awaits j := by
    cases hc : q.closed with
    | true => simp [awaits_addRateLimited_of_closed hc]
    | false => simp [awaits_addRateLimited hc]

end WorkQueue

-- ---------------------------------------------------------------------------
-- Hearing of a change again
-- ---------------------------------------------------------------------------

def Admission.asks (k : PromotionKey) : Admission → List PromotionKey
  | .becameActive => [k]
  | .queued => []

namespace World

variable {w : World} {c : Change} {p : Promotion}

theorem askedFor_dispatched (w : World) (g : Gate) :
    w.queue.AskedFor g.next?.toList (w.dispatched g) := by
  unfold dispatched
  cases g.next? with
  | none => exact WorkQueue.askedFor_none w.queue
  | some next => exact WorkQueue.askedFor_addRateLimited w.queue w.now next .zero

theorem askedFor_admitted (w : World) (k : PromotionKey) (a : Admission) :
    w.queue.AskedFor (a.asks k) (w.admitted k a) := by
  cases a with
  | becameActive => exact WorkQueue.askedFor_add w.queue k
  | queued => exact WorkQueue.askedFor_none w.queue

/-- A world after news that moved the gate of one stage and had the queue asked for keys, which
depend on that gate. -/
structure Told (w : World) (stage : StageKey) (move : Gate → Gate)
    (keys : Gate → List PromotionKey) (u : World) : Prop where
  settings : u.settings = w.settings
  store : u.store = w.store
  disturbances : u.disturbances = w.disturbances
  gates : ∀ other, u.gates.gate other =
    if other = stage then move (w.gates.gate stage) else w.gates.gate other
  queue : w.queue.AskedFor (keys (w.gates.gate stage)) u.queue

/-- Two worlds that nothing tells apart: the same promotions hold stages and stand in line, and the
same keys are awaited. -/
structure Alike (u v : World) : Prop where
  gates : ∀ stage, v.gates.gate stage = u.gates.gate stage
  awaits : ∀ k, v.queue.Awaits k ↔ u.queue.Awaits k

theorem alike_later (w : World) (now : Instant) : w.Alike { w with now } :=
  ⟨fun _ => rfl, fun _ => .rfl⟩

/-- News that moves a gate nowhere once it was moved, and has the same keys asked for then. -/
theorem Told.again {u v : World} {stage : StageKey} {move : Gate → Gate}
    {keys : Gate → List PromotionKey} {now : Instant} (h : w.Told stage move keys u)
    (h' : Told { u with now } stage move keys v) (rests : ∀ g, move (move g) = move g)
    (asks : ∀ g, keys (move g) = keys g) : u.Alike v := by
  have hmoved : u.gates.gate stage = move (w.gates.gate stage) := by rw [h.gates, if_pos rfl]
  refine ⟨fun other => (h'.gates other).trans ?_, fun k => ?_⟩
  · show (if other = stage then move (u.gates.gate stage) else _) = _
    split
    · next ho => rw [ho, hmoved, rests]
    · rfl
  · have hqueue : u.queue.AskedFor (keys (u.gates.gate stage)) v.queue := h'.queue
    rw [hmoved, asks] at hqueue
    exact h.queue.again hqueue

theorem told_created {order : Entry → Entry → Ordering} (h : w.settings.worksOn p = true)
    (ranked : w.gates.order = order) :
    w.Told p.stageKey (fun g => (g.enroll order (.ofPromotion p)).2)
      (fun g => (g.enroll order (.ofPromotion p)).1.asks p.key)
      ((onPromotionCreated p).run w).2 := by
  subst ranked
  obtain ⟨counters, log, hr⟩ := onPromotionCreated_run h
  rw [hr]
  exact ⟨rfl, rfl, rfl, fun _ => Gates.gate_enroll _, askedFor_admitted w p.key _⟩

theorem told_released {ended : PromotionKey → Bool} (quiet : w.Quiet)
    (same : w.store.hasEnded = ended) (stage : StageKey) (k : PromotionKey) :
    w.Told stage (·.passOn ended k) (fun g => (g.passOn ended k).next?.toList)
      ((release stage k).run w).2 := by
  subst same
  obtain ⟨counters, log, hfreed⟩ := release_run stage k w
  let freed : World := { w with gates := (w.gates.conclude stage k).2, counters, log }
  have hquiet : freed.Quiet := quiet
  obtain ⟨counters', log', hr⟩ := enqueueNext_quiet hquiet stage
  have hgate : (freed.gates.passEnded freed.store.hasEnded stage).gate stage =
      (w.gates.gate stage).passOn w.store.hasEnded k := by
    rw [Gates.gate_passEnded, if_pos rfl, Gates.gate_conclude, if_pos rfl]
    rfl
  rw [hfreed, hr]
  refine ⟨rfl, rfl, rfl, fun other => ?_, hgate ▸ askedFor_dispatched freed _⟩
  by_cases ho : other = stage
  · rw [if_pos ho, ← hgate, ho]
  · rw [if_neg ho]
    show (freed.gates.passEnded freed.store.hasEnded stage).gate other = w.gates.gate other
    rw [Gates.gate_passEnded, if_neg ho, Gates.gate_conclude, if_neg ho]

-- ---------------------------------------------------------------------------
-- One kind of change after the other
-- ---------------------------------------------------------------------------

variable (now : Instant)

theorem created_again (p : Promotion) (w : World) :
    let once := ((onPromotionCreated p).run w).2
    once.Alike ((onPromotionCreated p).run { once with now }).2 := by
  intro once
  by_cases hp : w.settings.worksOn p = true
  · have honce := told_created hp rfl
    have hworks : once.settings.worksOn p = true :=
      (congrArg (Settings.worksOn · p) honce.settings).trans hp
    have horder : once.gates.order = w.gates.order := by
      obtain ⟨counters, log, hr⟩ := onPromotionCreated_run hp
      exact congrArg (·.gates.order) hr
    have htwice := told_created (w := { once with now }) hworks horder
    exact honce.again htwice (fun g => by rw [Gate.enroll_enroll])
      fun g => by rw [Gate.enroll_enroll]
  · have hpass : w.settings.worksOn p = false := by simpa using hp
    rw [show once = w from onPromotionCreated_pass hpass,
      onPromotionCreated_pass (w := { w with now }) hpass]
    exact alike_later w now

theorem released_again (quiet : w.Quiet) (stage : StageKey) (k : PromotionKey) :
    let once := ((release stage k).run w).2
    once.Alike ((release stage k).run { once with now }).2 := by
  intro once
  have honce := told_released quiet rfl stage k
  have hquiet : World.Quiet { once with now } := honce.disturbances.trans quiet
  have hended : once.store.hasEnded = w.store.hasEnded := congrArg Store.hasEnded honce.store
  have htwice := told_released hquiet hended stage k
  exact honce.again htwice (fun g => Gate.passOn_passOn) fun g => by rw [Gate.passOn_passOn]

theorem run_forM_cons (f : α → Action PUnit) (x : α) (items : List α) (w : World) :
    (((x :: items).forM f).run w).2 = ((items.forM f).run ((f x).run w).2).2 := rfl

def rechecked (settings : Settings) (promotions : List Promotion) : List PromotionKey :=
  (promotions.filter fun p => settings.isResponsibleFor p.metadata).map Promotion.key

theorem recheck_run (promotions : List Promotion) (w : World) : ∃ counters log,
    ((promotions.forM fun p => do
      if ← isResponsibleFor p.metadata then
        count fun c => { c with rechecks := c.rechecks + 1 }
        record (.decision .promotionRechecked p.key p.stageKey)
        enqueue p.key : Action PUnit).run w).2 = { w with
          queue := (rechecked w.settings promotions).foldl .add w.queue, counters, log } := by
  induction promotions generalizing w with
  | nil => exact ⟨_, _, rfl⟩
  | cons p rest ih =>
    rw [run_forM_cons, run_bind, run_isResponsibleFor]
    by_cases hr : w.settings.isResponsibleFor p.metadata = true
    · obtain ⟨counters, log, hrest⟩ := ih { w with
        counters := { w.counters with rechecks := w.counters.rechecks + 1 }
        log := .decision .promotionRechecked p.key p.stageKey :: w.log
        queue := w.queue.add p.key }
      have hkeys : rechecked w.settings (p :: rest) = p.key :: rechecked w.settings rest := by
        simp [rechecked, hr]
      rw [if_pos hr, hkeys]
      exact ⟨counters, log, hrest⟩
    · have hkeys : rechecked w.settings (p :: rest) = rechecked w.settings rest := by
        simp [rechecked, hr]
      rw [if_neg hr, hkeys]
      exact ih w

theorem onApplicationUpdated_run (quiet : w.Quiet) (app : Application) : ∃ counters log,
    ((onApplicationUpdated app).run w).2 = { w with
      queue := (rechecked w.settings (w.store.runningAgainst app.key)).foldl .add w.queue
      counters, log } := by
  unfold onApplicationUpdated
  rw [run_bind, listRunning_quiet quiet]
  exact recheck_run _ w

theorem application_again (quiet : w.Quiet) (app : Application) :
    let once := ((onApplicationUpdated app).run w).2
    once.Alike ((onApplicationUpdated app).run { once with now }).2 := by
  obtain ⟨counters, log, hr⟩ := onApplicationUpdated_run quiet app
  rw [hr]
  let keys := rechecked w.settings (w.store.runningAgainst app.key)
  let once : World := { w with queue := keys.foldl .add w.queue, counters, log }
  have hquiet : World.Quiet { once with now } := quiet
  obtain ⟨counters', log', hr'⟩ := onApplicationUpdated_run hquiet app
  show once.Alike ((onApplicationUpdated app).run { once with now }).2
  rw [hr']
  refine ⟨fun _ => rfl, fun k => ?_⟩
  have honce : w.queue.AskedFor keys once.queue := WorkQueue.askedFor_foldl_add keys w.queue
  exact honce.again (WorkQueue.askedFor_foldl_add keys once.queue)

theorem handle_ended_again (quiet : w.Quiet) (he : c.ended? = some p) :
    let once := ((handle c).run w).2
    once.Alike ((handle c).run { once with now }).2 := by
  intro once
  by_cases hr : w.settings.isResponsibleFor p.metadata = true
  · have hrun : once = ((release p.stageKey p.key).run w).2 := by
      rw [show once = _ from handle_ended he, if_pos hr]
    have hresponsible : once.settings.isResponsibleFor p.metadata = true := by
      rw [hrun, (told_released quiet rfl p.stageKey p.key).settings, hr]
    rw [handle_ended he, if_pos hresponsible, hrun]
    exact released_again now quiet p.stageKey p.key
  · have hrun : once = w := by
      rw [show once = _ from handle_ended he, if_neg hr]
    rw [hrun, handle_ended he, if_neg hr]
    exact alike_later w now

end World

open World

/-- In every world where reads succeed, whatever the gates, the queue and the store hold: a change
that is heard of again, at any later reading of the clock, moves no gate. Each stage keeps its
holder and its line, and the same keys are dirty or lie in wait. -/
theorem heard_again {w : World} (quiet : w.Quiet) (c : Change) (later : Instant) :
    let once := ((handle c).run w).2
    let twice := ((handle c).run { once with now := later }).2
    (∀ stage, twice.gates.active? stage = once.gates.active? stage ∧
      (twice.gates.gate stage).waiting = (once.gates.gate stage).waiting) ∧
    ∀ k, (k ∈ twice.queue.dirty ∨ ∃ d ∈ twice.queue.delayed, d.key = k) ↔
      k ∈ once.queue.dirty ∨ ∃ d ∈ once.queue.delayed, d.key = k := by
  intro once twice
  have halike : once.Alike twice := by
    cases he : c.ended? with
    | some p => exact handle_ended_again later quiet he
    | none =>
      cases c with
      | promotionCreated p => exact created_again later p w
      | promotionUpdated old new =>
        have honce : once = w := handle_passed he
        have htwice : twice = { once with now := later } := handle_passed he
        rw [htwice]
        exact alike_later once later
      | promotionDeleted p => cases he
      | applicationUpdated old new =>
        rcases old with _ | old <;> rcases new with _ | app
        · exact alike_later w later
        · exact alike_later w later
        · exact alike_later w later
        · exact application_again later quiet app
  exact ⟨fun stage => ⟨congrArg Gate.holder (halike.gates stage),
    congrArg Gate.waiting (halike.gates stage)⟩, halike.awaits⟩

open System.Sample in
/-- The end of a holder that is told twice: its stage is free, and the one that is next was sent for
twice over. -/
theorem heard_again_sample : ∃ (w : World) (c : Change) (stage : StageKey) (next : PromotionKey),
    let once := ((handle c).run w).2
    let twice := ((handle c).run { once with now := 7 }).2
    w.Quiet ∧ w.gates.active? stage ≠ none ∧ twice.gates.active? stage = none ∧
      once.queue.delayed.map Delayed.key = [next] ∧
      twice.queue.delayed.map Delayed.key = [next, next] ∧
      ∀ k, twice.queue.Awaits k ↔ once.queue.Awaits k := by
  have hquiet : unheard.Quiet := (traced_of_reachable unheard_reachable).quiet
  obtain ⟨hgates, hawaits⟩ :=
    heard_again hquiet (.promotionDeleted ((named "a" "prod").stamped 1)) 7
  have hfreed := (hgates ⟨"ns", "prod"⟩).1
  refine ⟨unheard, _, ⟨"ns", "prod"⟩, ⟨"ns", "b"⟩, hquiet, ?_, hfreed.trans ?_, ?_, ?_, hawaits⟩ <;>
    decide +kernel

end StageGate
