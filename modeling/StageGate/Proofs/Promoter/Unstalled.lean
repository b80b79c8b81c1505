import StageGate.Proofs.Promoter.System
import StageGate.Proofs.Promoter.Watchful

/-!
# No stage stalls

Along every run of a system whose clients respect the store, the stages are attended, up to the
changes that the promoter has not heard of. So where it has heard of all of them and the queue is
idle, there is nothing left to be tended: every promotion has ended and every stage is idle with
nobody in line. Main statement: `settled_of_quiescent`.
-/

namespace StageGate

def Delivery.LooksAt (settings : Settings) : Delivery → StageKey → Prop
  | .change c, stage => c.LooksAt settings stage
  | .lagged _, _ => True

-- ---------------------------------------------------------------------------
-- Keys in the hands of workers
-- ---------------------------------------------------------------------------

def Progress.Open : Progress → Prop
  | .taken => True
  | .tried outcome => outcome ≠ .ok .done
  | .reported => False

def Busy (jobs : List Job) (k : PromotionKey) : Prop := ∃ j ∈ jobs, j.key = k ∧ j.progress.Open

theorem busy_cons {j : Job} {jobs : List Job} {k : PromotionKey} :
    Busy (j :: jobs) k ↔ j.key = k ∧ j.progress.Open ∨ Busy jobs k := by
  simp [Busy]

theorem busy_middle {before later : List Job} {j : Job} {k : PromotionKey} :
    Busy (before ++ j :: later) k ↔ j.key = k ∧ j.progress.Open ∨ Busy (before ++ later) k := by
  simp only [Busy, List.mem_append, List.mem_cons, or_and_right, exists_or, exists_eq_left]
  exact or_left_comm

section
variable {before later : List Job} {key k : PromotionKey} {outcome : Except ReconcileError Outcome}

theorem busy_of_tried (h : Busy (before ++ ⟨key, .tried outcome⟩ :: later) k) :
    Busy (before ++ ⟨key, .taken⟩ :: later) k := by
  rw [busy_middle] at h ⊢
  exact h.imp_left fun hk => ⟨hk.1, trivial⟩

theorem busy_tried (h : Busy (before ++ ⟨key, .taken⟩ :: later) k) :
    Busy (before ++ ⟨key, .tried outcome⟩ :: later) k ∨ k = key ∧ outcome = .ok .done := by
  rw [busy_middle] at h ⊢
  rcases h with ⟨rfl, -⟩ | hk
  · by_cases hdone : outcome = .ok .done
    · exact .inr ⟨rfl, hdone⟩
    · exact .inl (.inl ⟨rfl, hdone⟩)
  · exact .inl (.inr hk)

end

/-- Workers hold these keys, each of them once. -/
structure InHand (q : WorkQueue) (keys : List PromotionKey) : Prop where
  sound : q.Sound
  held : ∀ k ∈ keys, k ∈ q.held
  distinct : keys.Nodup

namespace InHand

variable {q q' : WorkQueue} {keys before later : List PromotionKey} {k : PromotionKey}
  {now : Instant}

theorem fed (h : InHand q keys) (hf : World.Fed q q') : InHand q' keys :=
  ⟨hf.sound h.sound, by rw [hf.held]; exact h.held, h.distinct⟩

theorem take (h : InHand q keys) (hc : q.closed = false) (ht : q.tryGet now = (some k, q')) :
    InHand q' (k :: keys) := by
  obtain ⟨hk, hheld, -, hsound, -⟩ := WorkQueue.tryGet_some h.sound hc ht
  refine ⟨hsound, fun j hj => (hheld j).mpr ?_, List.nodup_cons.mpr ⟨?_, h.distinct⟩⟩
  · exact (List.mem_cons.mp hj).imp id (h.held j)
  · exact fun hm => hk (h.held k hm)

theorem giveBack (h : InHand q (before ++ k :: later)) : InHand (q.done k) (before ++ later) := by
  obtain ⟨hk, hrest⟩ := List.nodup_cons.mp (List.perm_middle.nodup_iff.mp h.distinct)
  have hheld : ∀ j, j ∈ (q.done k).held ↔ j ∈ q.held ∧ j ≠ k := by
    intro j
    unfold WorkQueue.done
    simp only
    split <;> simp
  refine ⟨h.sound.done (h.held k (by simp)), fun j hj => (hheld j).mpr ⟨h.held j ?_, ?_⟩, hrest⟩
  · exact (List.mem_append.mp hj).elim (List.mem_append_left _)
      fun hj => List.mem_append_right _ (List.mem_cons_of_mem _ hj)
  · rintro rfl
    exact hk hj

end InHand

namespace World

variable {w u : World} {key : PromotionKey} {mechanics : Mechanics}
  {outcome : Except ReconcileError Outcome}

theorem fed_answered (w : World) (key : PromotionKey) (outcome : Except ReconcileError Outcome) :
    Fed w.queue (w.answered key outcome) := by
  rcases outcome with e | _ | delay
  · exact ⟨WorkQueue.held_addRateLimited _ _, WorkQueue.closed_addRateLimited _ _,
      (·.addRateLimited _ _ _)⟩
  · exact ⟨rfl, rfl, (·.forget key)⟩
  · exact ⟨WorkQueue.held_addAfter _ _, WorkQueue.closed_addAfter _ _,
      fun hs => (hs.forget key).addAfter _ _ _⟩

theorem fed_tried (h : w.Quiet) (ht : Tried mechanics key w outcome u) : Fed w.queue u.queue := by
  rcases keeps_tried h ht with hk | ⟨p, running, s, s', counters, log, -, -, -, -, -, rfl⟩
  · exact ⟨hk.held, hk.closed, hk.sound⟩
  · exact .refl _

theorem position_le_tried (h : w.Quiet) (hc : w.store.Chronicle)
    (hp : w.position ≤ w.store.feed.front) (ht : Tried mechanics key w outcome u) :
    u.position ≤ u.store.feed.front := by
  rcases keeps_tried h ht with
    hk | ⟨p, running, s, s', counters, log, stored, unended, -, marked, concluded, rfl⟩
  · rw [hk.position, hk.store]
    exact hp
  · obtain rfl := hc.key_eq stored
    obtain ⟨hstored, -, hphase, -⟩ := marked.spec stored unended
    have hmarked := marked.lawful hc stored unended
    have hconcluded := concluded.lawful (hc.next hmarked) hstored
      (Promotion.unended_of_running hphase)
    exact Nat.le_trans hp (Nat.le_trans (Store.front_le hmarked) (Store.front_le hconcluded))

theorem Attends.keeps_delivered {settings : Settings} {busy : PromotionKey → Prop} {due : Due}
    {delivery : Delivery} (h : w.Attends settings busy due)
    (hr : receive.run w = (some delivery, u)) : u.Keeps ((onDelivery delivery).run u).2 := by
  obtain ⟨position, hnext, rfl⟩ := System.receive_ok hr
  have hread : World.Quiet { w with position } := h.quiet
  cases delivery with
  | change c =>
    exact keeps_handle hread (c := c) fun p hp =>
      h.attended.chronicle.past (Feed.mem_of_receive hnext) hp
  | lagged missed =>
    have hlogged := keeps_of (w := { w with position }) (.refl _) (.refl _) w.counters
      (.watchLagged missed :: w.log)
    rw [onDelivery_lagged]
    exact hlogged.trans (keeps_resync hread)

theorem Attends.delivered {settings : Settings} {busy : PromotionKey → Prop}
    {missed : StageKey → Prop} {delivery : Delivery}
    (h : w.Attends settings busy (w.news.also missed))
    (hr : receive.run w = (some delivery, u)) :
    ((onDelivery delivery).run u).2.Attends settings busy
      (((onDelivery delivery).run u).2.news.also
        fun stage => missed stage ∧ ¬ delivery.LooksAt settings stage) := by
  have hk := h.keeps_delivered hr
  obtain ⟨position, hnext, rfl⟩ := System.receive_ok hr
  obtain rfl := h.settings_eq
  have hread : ({ w with position } : World).Attends w.settings busy (w.news.also missed) :=
    ⟨rfl, h.quiet, h.opened, h.attended⟩
  cases delivery with
  | change c =>
    obtain ⟨rfl, -, hdrop⟩ := Feed.receive_change hnext
    have hsuf := List.drop_suffix w.position w.store.feed.changes
    rw [news, hdrop] at hread
    rw [hdrop] at hsuf
    rw [news, hk.settings, hk.store, hk.position]
    exact hread.handle hsuf
  | lagged missed =>
    have hlogged := hread.logged w.counters (.watchLagged missed :: w.log)
    rw [onDelivery_lagged]
    refine hlogged.resync.mono ⟨False.elim, fun hm => ?_, False.elim⟩
    cases hm

end World

-- ---------------------------------------------------------------------------
-- Systems
-- ---------------------------------------------------------------------------

namespace System

/-- The promoter attends to every stage, apart from the next promotions of those that it missed. -/
structure Watched (settings : Settings) (missed : StageKey → Prop) (s : System) : Prop where
  inHand : InHand s.world.queue (s.jobs.map Job.key)
  position_le : s.world.position ≤ s.world.store.feed.front
  attends : s.world.Attends settings (Busy s.jobs) (s.world.news.also missed)

namespace Watched

variable {settings : Settings} {missed : StageKey → Prop} {s : System} {w : World} {rules : Rules}
  {key : PromotionKey} {before later : List Job} {outcome : Except ReconcileError Outcome}

open World

theorem write (h : s.Watched settings missed) {ask : Write} (hr : ask.Respects s.world.store) :
    ({ s with world := { s.world with store := s.world.store.after ask } } : System).Watched
      settings missed where
  inHand := h.inHand
  position_le :=
    Nat.le_trans h.position_le (Store.front_le (h.attends.attended.chronicle.after hr))
  attends := by
    obtain ⟨rfl, quiet, opened, attended⟩ := h.attends
    exact ⟨rfl, quiet, opened, attended.news h.position_le (attended.chronicle.after hr)⟩

theorem deliver (h : s.Watched settings missed) {delivery : Delivery}
    (hr : receive.run s.world = (some delivery, w)) :
    ({ s with world := ((onDelivery delivery).run w).2 } : System).Watched settings
      fun stage => missed stage ∧ ¬ delivery.LooksAt settings stage := by
  have hattends := h.attends.delivered hr
  have hk := h.attends.keeps_delivered hr
  obtain ⟨position, hnext, rfl⟩ := receive_ok hr
  refine ⟨h.inHand.fed ⟨hk.held, hk.closed, hk.sound⟩, ?_, hattends⟩
  simp only [hk.position, hk.store]
  cases delivery with
  | change c => exact (Feed.receive_change hnext).1 ▸ (Feed.receive_change hnext).2.1
  | lagged missed => exact Feed.receive_lagged hnext

theorem relay (h : s.Watched settings missed) {queue : WorkQueue} {jobs : List Job} (now : Instant)
    (counters : Counters) (log : List LogRecord) (hand : InHand queue (jobs.map Job.key))
    (opened : queue.closed = false)
    (same : ∀ k, queue.Awaits k ∨ Busy jobs k ↔ s.world.queue.Awaits k ∨ Busy s.jobs k) :
    (⟨{ s.world with queue, now, counters, log }, jobs⟩ : System).Watched settings missed :=
  ⟨hand, h.position_le, h.attends.settings_eq, h.attends.quiet, opened,
    h.attends.attended.retend (fun hk => .inl ((same _).mp hk)) (fun hk => .inl ((same _).mpr hk))⟩

theorem take (h : s.Watched settings missed) {key? : Option PromotionKey}
    (ht : takeKey.run s.world = (key?, w)) :
    (⟨w, key?.toList.map (⟨·, .taken⟩) ++ s.jobs⟩ : System).Watched settings missed := by
  rw [run_takeKey] at ht
  obtain ⟨hkey, rfl⟩ := Prod.mk.inj ht
  cases key? with
  | none =>
    have hq : (s.world.queue.tryGet s.world.now).2 = s.world.queue.ripen s.world.now :=
      WorkQueue.tryGet_none (Prod.ext hkey rfl)
    refine h.relay s.world.now s.world.counters s.world.log ?_ ?_ fun k => ?_
    · rw [hq]
      exact h.inHand.fed ⟨WorkQueue.held_ripen _, WorkQueue.closed_ripen _, (·.ripen _)⟩
    · rw [hq, WorkQueue.closed_ripen, h.attends.opened]
    · rw [hq, WorkQueue.awaits_ripen h.attends.opened]
      rfl
  | some key =>
    have ht : s.world.queue.tryGet s.world.now = (some key, (s.world.queue.tryGet s.world.now).2) :=
      Prod.ext hkey rfl
    obtain ⟨-, -, hc, -, hawaits⟩ := WorkQueue.tryGet_some h.inHand.sound h.attends.opened ht
    refine h.relay s.world.now s.world.counters s.world.log
      (h.inHand.take h.attends.opened ht) hc fun k => ?_
    simp only [Option.toList_some, List.map_cons, List.map_nil, List.cons_append, List.nil_append,
      busy_cons, hawaits, Progress.Open, and_true, eq_comm, or_assoc]
    exact or_left_comm

theorem attempt (h : s.Watched settings missed) {mechanics : Mechanics}
    (hj : s.jobs = before ++ ⟨key, .taken⟩ :: later)
    (ht : (reconcile mechanics key).run.run s.world = (outcome, w)) :
    (⟨w, before ++ ⟨key, .tried outcome⟩ :: later⟩ : System).Watched settings missed := by
  have hkey := fun p => h.attends.attended.chronicle.key_eq (k := key) (p := p)
  have htried := reconcile_quiet h.attends.quiet hkey mechanics
  rw [ht] at htried
  have hb : Busy s.jobs key := by rw [hj, busy_middle]; exact .inl ⟨rfl, trivial⟩
  refine ⟨?_, ?_, h.attends.tried hb h.position_le htried (fun hk => hj ▸ busy_of_tried hk)
    fun hk => busy_tried (hj ▸ hk)⟩
  · have hhand := h.inHand.fed (fed_tried h.attends.quiet htried)
    rw [hj] at hhand
    simpa using hhand
  · exact position_le_tried h.attends.quiet h.attends.attended.chronicle h.position_le htried

theorem report (h : s.Watched settings missed)
    (hj : s.jobs = before ++ ⟨key, .tried outcome⟩ :: later) :
    (⟨((onOutcome key outcome).run s.world).2, before ++ ⟨key, .reported⟩ :: later⟩ :
      System).Watched settings missed := by
  obtain ⟨counters, log, hr⟩ := onOutcome_run key outcome s.world
  have hf := fed_answered s.world key outcome
  rw [hr]
  refine h.relay s.world.now counters log ?_ (hf.closed.trans h.attends.opened) fun k => ?_
  · have hhand := h.inHand.fed hf
    rw [hj] at hhand
    simpa using hhand
  · simp only [awaits_answered h.attends.opened, hj, busy_middle, Progress.Open, and_false,
      false_or, eq_comm (a := key), and_comm (a := outcome ≠ _), or_assoc]
    exact or_left_comm

theorem giveBack (h : s.Watched settings missed)
    (hj : s.jobs = before ++ ⟨key, .reported⟩ :: later) :
    (⟨((doneWith key).run s.world).2, before ++ later⟩ : System).Watched settings missed := by
  have hhand := h.inHand
  rw [hj, List.map_append, List.map_cons] at hhand
  have hdone := hhand.giveBack
  rw [← List.map_append] at hdone
  refine h.relay s.world.now s.world.counters s.world.log hdone ?_ fun k => ?_
  · rw [WorkQueue.closed_done, h.attends.opened]
  · rw [WorkQueue.awaits_done, hj, busy_middle]
    simp [Progress.Open]

theorem retime (h : s.Watched settings missed) {delayed : List Delayed}
    (same : (delayed.map Delayed.key).Perm (s.world.queue.delayed.map Delayed.key)) :
    ({ s with world := { s.world with queue := { s.world.queue with delayed } } } : System).Watched
      settings missed := by
  refine h.relay s.world.now s.world.counters s.world.log
    ⟨h.inHand.sound.delay _ _, h.inHand.held, h.inHand.distinct⟩ h.attends.opened fun k => ?_
  have hkeys : (∃ d ∈ delayed, d.key = k) ↔ ∃ d ∈ s.world.queue.delayed, d.key = k := by
    rw [← List.mem_map, ← List.mem_map, same.mem_iff]
  simp only [WorkQueue.Awaits, hkeys]

theorem mono {missed' : StageKey → Prop} (h : s.Watched settings missed)
    (sub : ∀ {stage}, missed stage → missed' stage) : s.Watched settings missed' :=
  ⟨h.inHand, h.position_le, h.attends.mono (Due.also_mono sub)⟩

/-- `respects` says that the clients respect the store. -/
theorem step (h : s.Watched settings missed) (respects : ∀ s w, rules.permits s w → w.Respects s)
    {s' : System} (hs : Step rules s s') : s'.Watched settings missed := by
  cases hs with
  | write ask allowed => exact h.write (respects _ _ allowed)
  | deliver received => exact (h.deliver received).mono And.left
  | take taken => exact h.take taken
  | attempt key mechanics employed job tried => exact h.attempt job tried
  | report key outcome job => exact h.report job
  | giveBack key job => exact h.giveBack job
  | elapse now onward =>
    exact h.relay now s.world.counters s.world.log h.inHand h.attends.opened fun _ => .rfl
  | retime delayed same => exact h.retime same

theorem untended (h : s.Watched settings missed) (hq : s.Quiescent) (k : PromotionKey) :
    ¬ (s.world.queue.Awaits k ∨ Busy s.jobs k) := by
  obtain ⟨hheld, hawaits⟩ := h.inHand.sound.idle hq.2
  rintro (ha | ⟨j, hj, -⟩)
  · exact hawaits k ha
  · have hm := h.inHand.held j.key (List.mem_map_of_mem hj)
    rw [hheld] at hm
    cases hm

theorem heard (h : s.Watched settings missed) (hq : s.Quiescent) :
    Attended settings (fun k => s.world.queue.Awaits k ∨ Busy s.jobs k)
      ((Due.ofNews settings []).also missed) s.world.store s.world.gates := by
  have attended := h.attends.attended
  rwa [news, Feed.receive_none hq.1 h.position_le, ← Feed.length_changes, List.drop_length,
    h.attends.settings_eq] at attended

/-- Where nothing is due and nobody is tended, every stage is idle, and nobody is in line unless the
stage was missed. -/
theorem idle (h : s.Watched settings missed) (hq : s.Quiescent) (stage : StageKey) :
    s.world.gates.active? stage = none ∧ (missed stage ∨ s.world.gates.gate stage = {}) := by
  have attended := (h.heard hq).gates stage
  have untended := h.untended hq
  have ends (k : PromotionKey) : ¬ ((Due.ofNews settings []).also missed).ends stage k := by
    rintro ⟨_, hc, -⟩
    cases hc
  refine ⟨attended.holder_eq_none untended ends, ?_⟩
  by_cases hm : missed stage
  · exact .inl hm
  · refine .inr (attended.eq_empty untended ends ?_)
    rintro (⟨_, hc, -⟩ | hm')
    · cases hc
    · exact hm hm'

theorem empty (settings : Settings) (ns : String) (missed : StageKey → Prop) :
    (System.empty settings ns).Watched settings missed where
  inHand := ⟨WorkQueue.sound_start settings.backoff, fun _ hk => (List.not_mem_nil hk).elim,
    List.nodup_nil⟩
  position_le := Nat.le_refl _
  attends := by
    obtain ⟨settings_eq, quiet, opened, attended⟩ :=
      World.attends_start settings (Store.chronicle_empty ns) 0
    refine ⟨settings_eq, quiet, opened, (attended.narrow (fun _ _ => False.elim)
      (fun _ => False.elim) (fun hp => by cases hp)).retend (fun hk => .inl ?_) fun hk => .inl ?_⟩
    · refine hk.imp_right ?_
      rintro ⟨_, hj, -⟩
      cases hj
    · exact hk.imp id False.elim

end Watched

structure Attends (settings : Settings) (s : System) : Prop where
  inHand : InHand s.world.queue (s.jobs.map Job.key)
  position_le : s.world.position ≤ s.world.store.feed.front
  attends : s.world.Attends settings (Busy s.jobs) s.world.news

theorem attends_iff {settings : Settings} {s : System} :
    s.Attends settings ↔ s.Watched settings fun _ => False := by
  constructor
  · rintro ⟨hand, position_le, attends⟩
    exact ⟨hand, position_le, by rwa [Due.also_none]⟩
  · rintro ⟨hand, position_le, attends⟩
    exact ⟨hand, position_le, by rwa [Due.also_none] at attends⟩

namespace Attends

variable {settings : Settings} {s : System} {rules : Rules}

theorem reachable {start : System} (h : start.Attends settings)
    (respects : ∀ s w, rules.permits s w → w.Respects s) (hr : Reachable rules start s) :
    s.Attends settings := by
  induction hr with
  | start => exact h
  | step reached step ih => exact attends_iff.mpr ((attends_iff.mp ih).step respects step)

/-- Where nothing is due and nobody is tended, every promotion has ended and every stage is idle. -/
theorem settled (h : s.Attends settings) (hq : s.Quiescent) :
    (∀ k p, s.world.store.promotion? k = some p → settings.isResponsibleFor p.metadata = true →
      p.isTerminal = true) ∧
    ∀ stage, s.world.gates.gate stage = {} := by
  have hw := attends_iff.mp h
  have idle (stage : StageKey) : s.world.gates.gate stage = {} :=
    (hw.idle hq stage).2.resolve_left id
  refine ⟨fun k p hp hr => ?_, idle⟩
  cases ht : p.isTerminal with
  | true => rfl
  | false =>
    have hworks := Settings.worksOn_iff.mpr ⟨ht, hr⟩
    rcases ((hw.heard hq).gates p.stageKey).placed hp hworks rfl with hs | ⟨q, hq, -⟩
    · rw [idle] at hs
      exact (Gate.not_stands_empty hs).elim
    · cases hq

theorem empty (settings : Settings) (ns : String) : (System.empty settings ns).Attends settings :=
  attends_iff.mpr (Watched.empty settings ns _)

end Attends

end System

/-- In every quiescent state that a system of lenient clients reaches, no stage is stalled: every
promotion that the promoter works on is terminal, no stage has a holder, and nobody waits in line.
-/
theorem settled_of_quiescent (settings : Settings) (ns : String) {s : System}
    (h : System.Reachable .lenient (.empty settings ns) s) (hq : s.Quiescent) :
    (∀ p ∈ s.world.store.promotionList, settings.isResponsibleFor p.metadata = true →
      p.isTerminal = true) ∧
    ∀ stage, s.world.gates.active? stage = none ∧ s.world.gates.pending stage = [] := by
  obtain ⟨ended, idle⟩ :=
    ((System.Attends.empty settings ns).reachable (fun _ _ => id) h).settled hq
  refine ⟨fun p hp => ?_, fun stage => ?_⟩
  · obtain ⟨k, hk⟩ := Store.mem_promotionList_iff.mp hp
    exact ended k p hk
  · rw [Gates.active?, Gates.pending, idle stage]
    exact ⟨rfl, rfl⟩

open System.Sample in
theorem settled_of_quiescent_sample : ∃ s, System.Reachable .lenient (.empty {} "argocd") s ∧
    s.Quiescent ∧ (s.world.store.promotionList.map fun p => (p.key, p.phase)) =
      [(⟨"ns", "a"⟩, .failed)] ∧ s.world.gates.pending ⟨"ns", "test"⟩ = [] := by
  have hlenient : System.Reachable .lenient (.empty {} "argocd") ⟨world, []⟩ :=
    reachable.mono (fun _ _ => And.left) fun _ => id
  have hreached := Run.reaches_runUntil (B := fun _ => True) (r := ⟨world, {}⟩) (fun _ _ => trivial)
    (fun _ _ _ _ => trivial) (fun _ => false) 9 trivial hlenient
  have hquiet : System.Quiescent ⟨(Run.runUntil (fun _ => false) 9 ⟨world, {}⟩).world, []⟩ :=
    ⟨by decide +kernel, by decide +kernel⟩
  exact ⟨_, hreached, hquiet, by decide +kernel,
    ((settled_of_quiescent {} "argocd" hreached hquiet).2 ⟨"ns", "test"⟩).2⟩

end StageGate
