import Mathlib.Data.List.Nodup
import Mathlib.Data.List.TakeWhile
import StageGate.Proofs.Promoter.Interference
import StageGate.Proofs.Promoter.Outages

/-!
# The oldest valid promotion first

A line is built from promotions as they were when they came to it, and the next one is chosen by
what is stored when the stage is free. As long as no name is used twice the two agree: the next one
is the oldest by what is stored, of all those in line that are there and have not ended. Main
statements: `Lined.step`, that no step brings a line out of order, and `oldest_next`.
-/

namespace StageGate

namespace World

variable {w u : World} {stage : StageKey} {key : PromotionKey} {p : Promotion} {c : Change}

-- ---------------------------------------------------------------------------
-- Hearing of changes
-- ---------------------------------------------------------------------------

theorem Steady.recovering : Recovering fun _ _ x => Steady x.run :=
  attempting.recovering attempting.get

theorem Steady.sendAll (stages : List StageKey) : Steady (World.sendAll stages) :=
  composing.forM (fun stage => composing.bind (attempting.enqueueNext stage) fun _ =>
    composing.pure _) stages

namespace Lined

theorem start (settings : Settings) (ns : String) :
    (World.start settings { defaultNamespace := ns }).Lined :=
  ⟨Store.descended_empty ns, Gates.reflect_start _⟩

theorem steady {x : Action α} (h : w.Lined) (hx : Steady x) : (x.run w).2.Lined := (hx w).lined h

theorem restore (h : w.Lined) (written : w.store.Written u.store) (gates : u.gates = w.gates) :
    u.Lined := (Leads.restore written gates).lined h

theorem aside (h : w.Lined) (store : u.store = w.store) (gates : u.gates = w.gates) : u.Lined :=
  (Leads.aside store gates).lined h

theorem onPromotionCreated (h : w.Lined) (hp : w.store.Announced (.ofPromotion p)) :
    ((World.onPromotionCreated p).run w).2.Lined := by
  by_cases hw : w.settings.worksOn p = true
  · obtain ⟨counters, log, hr⟩ := onPromotionCreated_run hw
    rw [hr]
    have henroll : w.Leads { w with
        gates := (w.gates.enroll p.stageKey (.ofPromotion p)).2
        queue := w.admitted p.key (w.gates.enroll p.stageKey (.ofPromotion p)).1, counters, log } :=
      .perform (.enroll p.stageKey (.ofPromotion p)) (fun _ _ he => Option.some.inj he ▸ hp) .refl
        rfl
    exact henroll.lined h
  · rwa [onPromotionCreated_pass (by simpa using hw)]

theorem handle (h : w.Lined) (hc : c ∈ w.store.feed.changes) :
    ((World.handle c).run w).2.Lined := by
  cases he : c.ended? with
  | some p =>
    rw [handle_ended he]
    split
    · exact h.steady (.release _ _)
    · exact h
  | none =>
    cases c with
    | promotionCreated p => exact h.onPromotionCreated ⟨p, Store.mem_created.mpr hc, rfl⟩
    | promotionUpdated old new => rwa [handle_passed he]
    | promotionDeleted p => cases he
    | applicationUpdated old new =>
      rcases old with _ | old <;> rcases new with _ | app
      · exact h
      · exact h
      · exact h
      · exact h.steady (Steady.attempting.onApplicationUpdated (.listRunning _) .isResponsibleFor)

-- ---------------------------------------------------------------------------
-- Building the lines anew
-- ---------------------------------------------------------------------------

theorem initializeQueues (h : w.Lined) : (World.initializeQueues.run.run w).2.Lined := by
  have hlisted := h.steady .listPromotions
  rcases hanswer : listPromotions.run w with ⟨e | all, v⟩
  · have hrun : World.initializeQueues.run.run w = (.error e, v) := by
      unfold World.initializeQueues
      rw [attempt_bind, show (ExceptT.mk listPromotions).run.run w = _ from hanswer]
    rw [hrun]
    rwa [hanswer] at hlisted
  · have hall : ∀ p ∈ toAdmit v.settings all, v.store.Announced (.ofPromotion p) := by
      intro p hp
      obtain ⟨s, hbefore, hlist, hafter⟩ := callStore_ok _ _ _ (congrArg Prod.fst hanswer)
      obtain rfl := Except.ok.inj hlist
      obtain ⟨k, hk⟩ := Store.mem_promotionList_iff.mp (mem_toAdmit.mp hp).1
      have hstore : ((listPromotions.run w).2).store = v.store := by rw [hanswer]
      exact hstore ▸ h.announced hbefore hk hafter
    have henrolled : Runs World.initializeQueues w fun _ u => u.Lined := by
      unfold World.initializeQueues
      refine Runs.bind_ok hanswer (Runs.bind_ok rfl ?_)
      refine Runs.bind (Runs.forM
        (I := fun list u => u.Lined ∧ ∀ p ∈ list, u.store.Announced (.ofPromotion p)) ?_ ?_) ?_
      · rintro p rest u ⟨hu, hrest⟩
        refine Runs.lift ⟨hu.onPromotionCreated (hrest p List.mem_cons_self), fun q hq => ?_⟩
        rw [(keeps_onPromotionCreated p).store]
        exact hrest q (List.mem_cons_of_mem _ hq)
      · rw [hanswer] at hlisted
        exact ⟨hlisted, hall⟩
      · rintro _ u ⟨hu, -⟩
        exact ⟨_, _, rfl, hu.aside rfl rfl⟩
    obtain ⟨n, u, hr, hu⟩ := henrolled
    rw [hr]
    exact hu

theorem resync (h : w.Lined) : (World.resync.run.run w).2.Lined := by
  have hrestored : (World.restore.run.run w).2.Lined := by
    have hfreed := h.steady (Steady.recovering.forM Steady.recovering.releaseStale w.gates.stages)
    unfold World.restore
    rw [attempt_bind, attempt_get]
    simp only
    rw [attempt_bind]
    rcases hr : (w.gates.stages.forM World.releaseStale).run.run w with ⟨e | _, v⟩
    · rwa [hr] at hfreed
    · rw [hr] at hfreed
      have hfilled := hfreed.initializeQueues
      simp only
      rw [attempt_bind]
      rcases hi : World.initializeQueues.run.run v with ⟨e | _, u⟩
      · rwa [hi] at hfilled
      · rwa [hi] at hfilled
  rw [run_resync]
  rcases hr : World.restore.run.run w with ⟨e | _, u⟩
  · rwa [hr] at hrestored
  · rw [hr] at hrestored
    exact hrestored.steady (.sendAll _)

theorem delivered (h : w.Lined) {delivery : Delivery}
    (hr : receive.run w = (some delivery, u)) : ((onDelivery delivery).run u).2.Lined := by
  obtain ⟨position, hnext, rfl⟩ := System.receive_ok hr
  have hread : ({ w with position } : World).Lined := h.aside rfl rfl
  cases delivery with
  | change c =>
    rw [onDelivery_change]
    exact hread.handle (Feed.mem_of_receive hnext)
  | lagged missed =>
    rw [onDelivery_lagged]
    have hlogged : ({ w with position, log := .watchLagged missed :: w.log } : World).Lined :=
      hread.aside rfl rfl
    exact hlogged.resync

-- ---------------------------------------------------------------------------
-- Whole runs
-- ---------------------------------------------------------------------------

theorem step {rules : Rules} {s s' : System} (h : s.world.Lined) (hs : System.Step rules s s') :
    s'.world.Lined := by
  cases hs with
  | write ask allowed => exact h.restore (Store.written_after _ _) rfl
  | deliver received => exact h.delivered received
  | take taken =>
    rw [run_takeKey] at taken
    cases taken
    exact h.aside rfl rfl
  | attempt key mechanics employed job tried =>
    have htried := h.steady (Steady.reconcile mechanics key)
    rwa [show (World.reconcile mechanics key).run.run s.world = _ from tried] at htried
  | report key outcome job =>
    obtain ⟨counters, log, hr⟩ := onOutcome_run key outcome s.world
    rw [hr]
    exact h.aside rfl rfl
  | giveBack key job => exact h.aside rfl rfl
  | elapse now onward => exact h.aside rfl rfl
  | retime delayed same => exact h.aside rfl rfl

end Lined

end World

namespace System

/-- What a system reaches if, besides its steps, anything may at any time be laid down to disturb
the calls to come: writes of others before and after a call, failures, and stages that are freed.
-/
inductive BesetReachable (rules : Rules) (start : System) : System → Prop where
  | start : BesetReachable rules start start
  | step (reached : BesetReachable rules start s) (step : Step rules s s') :
      BesetReachable rules start s'
  | beset (reached : BesetReachable rules start s) (d : Disturbances) :
      BesetReachable rules start { s with world := s.world.amid d }

theorem Reachable.beset {rules : Rules} {start s : System} (h : Reachable rules start s) :
    BesetReachable rules start s := by
  induction h with
  | start => exact .start
  | step _ step ih => exact ih.step step

theorem BesetReachable.lined {rules : Rules} {settings : Settings} {ns : String} {s : System}
    (h : BesetReachable rules (.empty settings ns) s) : s.world.Lined := by
  induction h with
  | start => exact .start settings ns
  | step _ step ih => exact ih.step step
  | beset _ d ih => exact ih.aside rfl rfl

end System

-- ---------------------------------------------------------------------------
-- The next of a stage
-- ---------------------------------------------------------------------------

def Store.Unreused (s : Store) : Prop := (s.created.map Promotion.key).Nodup

instance (s : Store) : Decidable s.Unreused := inferInstanceAs (Decidable (List.Nodup _))

namespace World

variable {w : World} {stage : StageKey} {k : PromotionKey} {p : Promotion} {e : Entry}

/-- Where no name is used twice, an entry tells the age of the promotion that is stored. -/
theorem Lined.entry_eq (h : w.Lined) (unreused : w.store.Unreused)
    (he : e ∈ (w.gates.gate stage).waiting.items) (hp : w.store.promotion? e.key = some p) :
    e = .ofPromotion p := by
  obtain ⟨q, hq, rfl⟩ := h.gates.announced he
  obtain ⟨q', hq', hage⟩ := h.store.announced hp
  have hkeys : q'.key = q.key :=
    (congrArg Entry.key hage).trans (h.store.key_eq hp)
  rw [← hage, List.inj_on_of_nodup_map unreused hq' hq hkeys]

theorem staleDiscards_enqueueNext (h : w.Quiet) (stage : StageKey) :
    ((enqueueNext stage).run w).2.counters.staleDiscards = w.counters.staleDiscards +
      ((w.gates.gate stage).endedFront w.store.hasEnded).length := by
  obtain ⟨log, hd⟩ := dismiss_run ((w.gates.gate stage).endedFront w.store.hasEnded) stage
    { w with gates := w.gates.passEnded w.store.hasEnded stage }
  unfold enqueueNext
  simp only [run_bind, run_get, selectAt_quiet h, run_modify, hd]
  cases ((w.gates.passEnded w.store.hasEnded stage).gate stage).next? <;> rfl

theorem hasEnded_of_front (h : k ∈ (w.gates.gate stage).endedFront w.store.hasEnded) :
    w.store.hasEnded k = true := by
  unfold Gate.endedFront at h
  split at h
  · cases h
  · obtain ⟨e, he, rfl⟩ := List.mem_map.mp h
    have hall := List.all_takeWhile (p := fun x : Entry => w.store.hasEnded x.key)
      (l := (w.gates.gate stage).waiting.items)
    exact List.all_eq_true.mp hall e he

theorem Lined.precedes (h : w.Lined)
    (first : (w.gates.gate stage).waiting.items.dropWhile (w.store.hasEnded ·.key) = e :: rest)
    {x : Entry} (hx : x ∈ (w.gates.gate stage).waiting.items)
    (unended : w.store.hasEnded x.key = false) : x = e ∨ Entry.oldestFirst e x = .lt := by
  have hrising := h.gates.rising stage
  rw [← List.takeWhile_append_dropWhile (p := (w.store.hasEnded ·.key))
    (l := (w.gates.gate stage).waiting.items), first] at hx hrising
  rcases List.mem_append.mp hx with hpast | hleft
  · have hall := List.all_takeWhile (p := fun x : Entry => w.store.hasEnded x.key)
      (l := (w.gates.gate stage).waiting.items)
    rw [List.all_eq_true.mp hall x hpast] at unended
    cases unended
  · rcases List.mem_cons.mp hleft with rfl | hrest
    · exact .inl rfl
    · have hbehind := (List.pairwise_append.mp hrising).2.1
      exact .inr ((List.pairwise_cons.mp hbehind).1 x hrest)

theorem enqueueNext_first (h : w.Quiet) (idle : w.gates.active? stage = none) :
    ((enqueueNext stage).run w).1 = ((w.gates.gate stage).waiting.items.dropWhile
      (w.store.hasEnded ·.key)).head?.map Entry.key := by
  have hholder : (w.gates.gate stage).holder = none := idle
  rw [enqueueNext_answer h, Gates.gate_passEnded, if_pos rfl, Gate.next?, Gate.holder_passEnded]
  simp only [hholder, Option.isSome_none, Bool.false_eq_true, if_false]
  rw [Gate.passEnded, hholder]
  rfl

theorem pending_enqueueNext (h : w.Quiet) (stage other : StageKey) :
    ((enqueueNext stage).run w).2.gates.pending other = if other = stage then
      ((w.gates.gate stage).passEnded w.store.hasEnded).pending else w.gates.pending other := by
  obtain ⟨counters, log, hr⟩ := enqueueNext_quiet h stage
  rw [hr]
  show ((w.gates.passEnded w.store.hasEnded stage).gate other).pending = _
  rw [Gates.gate_passEnded]
  split <;> rfl

theorem enqueueNext_none_iff (h : w.Quiet) (idle : w.gates.active? stage = none) :
    ((enqueueNext stage).run w).1 = none ↔
      ∀ k ∈ w.gates.pending stage, w.store.hasEnded k = true := by
  rw [enqueueNext_first h idle, Option.map_eq_none_iff, List.head?_eq_none_iff,
    List.dropWhile_eq_nil_iff]
  show _ ↔ ∀ k ∈ (w.gates.gate stage).waiting.items.map Entry.key, _
  rw [List.forall_mem_map]

/-- Whoever is sent is the oldest, by what is stored, of those in line that have not ended. -/
theorem Lined.oldest (h : w.Lined) (quiet : w.Quiet) (unreused : w.store.Unreused)
    (idle : w.gates.active? stage = none) (sent : ((enqueueNext stage).run w).1 = some k) :
    ∃ p, w.store.promotion? k = some p ∧ p.isTerminal = false ∧
      ∀ j ∈ w.gates.pending stage, ∀ q, w.store.promotion? j = some q → q.isTerminal = false →
        j = k ∨ Entry.oldestFirst (.ofPromotion p) (.ofPromotion q) = .lt := by
  rw [enqueueNext_first quiet idle] at sent
  obtain ⟨e, hfirst, rfl⟩ := Option.map_eq_some_iff.mp sent
  obtain ⟨rest, hline⟩ := List.head?_eq_some_iff.mp hfirst
  have hopen : w.store.hasEnded e.key = false := by
    have hnot := List.head?_dropWhile_not (w.store.hasEnded ·.key)
      (w.gates.gate stage).waiting.items
    rw [hfirst] at hnot
    exact hnot
  have hmem : e ∈ (w.gates.gate stage).waiting.items :=
    (List.dropWhile_sublist _).subset (List.mem_of_mem_head? hfirst)
  obtain ⟨p, hp, hunended⟩ := Store.stored_of_unended hopen
  refine ⟨p, hp, hunended, fun j hj q hq hqopen => ?_⟩
  obtain ⟨x, hx, rfl⟩ := Gate.mem_pending.mp hj
  have hxopen : w.store.hasEnded x.key = false := by simp [Store.hasEnded, hq, hqopen]
  rw [← h.entry_eq unreused hmem hp, ← h.entry_eq unreused hx hq]
  exact (h.precedes hline hx hxopen).imp_left (congrArg Entry.key)

end World

open World

/-- In every state that is reached while other writers come between the calls of the promoter and
calls fail, provided that no key was created twice: a search at an idle stage whose reads succeed
takes promotions from the front of the line that have ended or are gone, counts each of them once as
discarded, and stops at the first other one. That one is the oldest, by what is stored, of all in
line that are there and have not ended, and there is none exactly if they all have. All else at the
gates stays as it is. -/
theorem oldest_next {rules : Rules} {settings : Settings} {ns : String} {s : System}
    (h : System.BesetReachable rules (.empty settings ns) s) (quiet : s.world.Quiet)
    (unreused : s.world.store.Unreused) {stage : StageKey}
    (idle : s.world.gates.active? stage = none) :
    let w := s.world
    let sent := ((enqueueNext stage).run w).1
    let u := ((enqueueNext stage).run w).2
    (w.gates.pending stage).Nodup ∧
    (∃ passed, w.gates.pending stage = passed ++ u.gates.pending stage ∧
      (∀ k ∈ passed, w.store.hasEnded k = true) ∧
      u.counters.staleDiscards = w.counters.staleDiscards + passed.length) ∧
    sent = (u.gates.pending stage).head? ∧
    (∀ k, sent = some k → ∃ p, w.store.promotion? k = some p ∧ p.isTerminal = false ∧
      ∀ j ∈ w.gates.pending stage, ∀ q, w.store.promotion? j = some q → q.isTerminal = false →
        j = k ∨ Entry.oldestFirst (.ofPromotion p) (.ofPromotion q) = .lt) ∧
    (sent = none ↔ ∀ k ∈ w.gates.pending stage, w.store.hasEnded k = true) ∧
    (∀ other, u.gates.active? other = w.gates.active? other) ∧
    (∀ other, other ≠ stage → u.gates.pending other = w.gates.pending other) ∧
    u.store = w.store := by
  intro w sent u
  have hlined := h.lined
  have hpending := pending_enqueueNext quiet stage
  refine ⟨(hlined.gates.distinct stage).line, ⟨_, ?_, fun k => hasEnded_of_front,
    staleDiscards_enqueueNext quiet stage⟩, ?_, fun k => hlined.oldest quiet unreused idle,
    enqueueNext_none_iff quiet idle, fun other => enqueueNext_holders stage other w, ?_,
    (keeps_enqueueNext quiet stage).store⟩
  · rw [hpending, if_pos rfl]
    exact Gate.pending_passEnded _ _
  · have hholder : (w.gates.gate stage).holder = none := idle
    rw [hpending, if_pos rfl, Gate.passEnded, hholder]
    show sent = (List.map Entry.key _).head?
    rw [List.head?_map]
    exact enqueueNext_first quiet idle
  · intro other hother
    rw [hpending, if_neg hother]

-- ---------------------------------------------------------------------------
-- A line with a gap
-- ---------------------------------------------------------------------------

namespace System.Sample

/-- Two promotions wait for an idle stage. The first of them was just deleted. -/
def gapped : World :=
  let three := told waiting (.create (named "c" "prod"))
    (.promotionCreated ((named "c" "prod").stamped 3))
  written (freed three) (.delete ⟨"ns", "b"⟩)

theorem gapped_reachable : Reachable .free (.empty {} "argocd") ⟨gapped, []⟩ := by
  have hthree := reaches_told (.create (named "c" "prod"))
    (.promotionCreated ((named "c" "prod").stamped 3)) waiting_reachable (by decide +kernel)
  have hfreed := reaches_told (.delete ⟨"ns", "a"⟩)
    (.promotionDeleted ((named "a" "prod").stamped 1)) hthree (by decide +kernel)
  exact reaches_written (.delete ⟨"ns", "b"⟩) hfreed

end System.Sample

open System.Sample in
theorem oldest_next_sample : ∃ p, gapped.Quiet ∧ gapped.store.Unreused ∧
    gapped.gates.active? ⟨"ns", "prod"⟩ = none ∧
    gapped.gates.pending ⟨"ns", "prod"⟩ = [⟨"ns", "b"⟩, ⟨"ns", "c"⟩] ∧
    ((enqueueNext ⟨"ns", "prod"⟩).run gapped).1 = some ⟨"ns", "c"⟩ ∧
    gapped.store.promotion? ⟨"ns", "c"⟩ = some p ∧ p.isTerminal = false ∧
    ((enqueueNext ⟨"ns", "prod"⟩).run gapped).2.gates.pending ⟨"ns", "prod"⟩ = [⟨"ns", "c"⟩] ∧
    ((enqueueNext ⟨"ns", "prod"⟩).run gapped).2.counters.staleDiscards =
      gapped.counters.staleDiscards + 1 := by
  have hidle : gapped.gates.active? ⟨"ns", "prod"⟩ = none := by decide +kernel
  have hunreused : gapped.store.Unreused := by decide +kernel
  have hline : gapped.gates.pending ⟨"ns", "prod"⟩ = [⟨"ns", "b"⟩, ⟨"ns", "c"⟩] := by
    decide +kernel
  have hsent : ((enqueueNext ⟨"ns", "prod"⟩).run gapped).1 = some ⟨"ns", "c"⟩ := by
    decide +kernel
  have hleft : ((enqueueNext ⟨"ns", "prod"⟩).run gapped).2.gates.pending ⟨"ns", "prod"⟩ =
      [⟨"ns", "c"⟩] := by decide +kernel
  obtain ⟨-, ⟨passed, hpassed, -, hcount⟩, -, holdest, -⟩ :=
    oldest_next gapped_reachable.beset rfl hunreused hidle
  obtain ⟨p, hp, hopen, -⟩ := holdest _ hsent
  have hone : passed.length = 1 := by
    have hlength := congrArg List.length (hline.symm.trans (hleft ▸ hpassed))
    simpa using hlength.symm
  rw [hone] at hcount
  exact ⟨p, rfl, hunreused, hidle, hline, hsent, hp, hopen, hleft, hcount⟩

end StageGate
