import StageGate.Proofs.Promoter.Outages
import StageGate.Proofs.Promoter.Unstalled

/-!
# Looks that fail

A search for the next promotion of a stage is given up when a look fails; the stage is missed then,
until the promoter searches there again. `Troubled` keeps account of the stages that are missed,
along runs in which any looks of any searches fail. Every other stage is attended all the time. Main
statement: `missed_of_waiting`. Nothing in the promoter itself searches at a missed stage that is
idle: in `stage_stalls` one failure leaves a promotion in line, with nothing left to do.
-/

namespace StageGate

namespace World

variable {w u : World} {settings : Settings} {busy busy' : PromotionKey → Prop}
  {missed : StageKey → Prop} {stage : StageKey} {key : PromotionKey} {p : Promotion} {c : Change}
  {rest : List Change}

-- ---------------------------------------------------------------------------
-- A delivery
-- ---------------------------------------------------------------------------

/-- The stages at which the handling of a delivery searches, and a look fails. -/
def BreaksOffAt (w : World) : Delivery → StageKey → Prop
  | .change c, stage =>
    c.LooksAt w.settings stage ∧ w.Failed ((onDelivery (.change c)).run w).2
  | .lagged n, stage => ∃ u,
    restore.run.run { w with log := .watchLagged n :: w.log } = (.ok (), u) ∧
      BreaksOff u.gates.stages u stage

def SparesDelivery (w : World) : Delivery → Prop
  | .change c => (∀ stage, ¬ c.LooksAt w.settings stage) → w.Quiet
  | .lagged n => ∃ u, restore.run.run { w with log := .watchLagged n :: w.log } = (.ok (), u)

theorem Attends.handle_outages
    (h : w.calmed.Attends settings busy ((Due.ofNews settings (c :: rest)).also missed))
    (ho : w.OnlyOutages) (hm : c ∈ w.store.feed.changes) (he : c.ended? = some p)
    (hr : settings.isResponsibleFor p.metadata = true) :
    w.Endures settings busy
      ((Due.ofNews settings rest).also fun stage =>
        c.LooksAt settings stage ∧ w.Failed ((World.handle c).run w).2 ∨
          missed stage ∧ ¬ c.LooksAt settings stage)
      ((World.handle c).run w).2 := by
  obtain rfl : w.settings = settings := h.settings_eq
  have chronicle := h.attended.chronicle
  have reg := chronicle.registered_of_ended hm he hr
  have hreleased := h.release_outages ho (chronicle.past hm he) reg
  rw [handle_ended he, if_pos hr]
  refine hreleased.mono ((Due.released_le he).also.trans ⟨id, ?_, id⟩)
  rintro stage ((hl | hm) | ⟨rfl, hf⟩)
  · exact .inl hl
  · exact .inr (.inr hm)
  · exact .inr (.inl ⟨⟨p, he, rfl, hr⟩, hf⟩)

/-- A stage is missed after a delivery if a search there broke off, or if it was missed and the
promoter did not search there. -/
theorem Attends.delivered_outages {delivery : Delivery}
    (h : w.Attends settings busy (w.news.also missed))
    (hr : receive.run w = (some delivery, u)) {d : Disturbances} (ho : (u.amid d).OnlyOutages)
    (hs : (u.amid d).SparesDelivery delivery) :
    (u.amid d).Endures settings busy
      (((onDelivery delivery).run (u.amid d)).2.news.also fun stage =>
        (u.amid d).BreaksOffAt delivery stage ∨ missed stage ∧ ¬ delivery.LooksAt settings stage)
      ((onDelivery delivery).run (u.amid d)).2 := by
  obtain rfl := h.settings_eq
  have hdelivered := h.delivered hr
  have hkeeps := h.keeps_delivered hr
  obtain ⟨position, hnext, rfl⟩ := System.receive_ok hr
  cases delivery with
  | change c =>
    by_cases hlooks : ∃ stage, c.LooksAt w.settings stage
    · obtain ⟨stage, p, he, -, hresp⟩ := hlooks
      obtain ⟨rfl, -, hdrop⟩ := Feed.receive_change hnext
      have hsuf := List.drop_suffix w.position w.store.feed.changes
      have hattended := h.attended
      rw [news, hdrop] at hattended
      rw [hdrop] at hsuf
      let v : World := { w with position := w.position + 1, disturbances := d }
      have hv : v.calmed.Attends w.settings busy
          ((Due.ofNews w.settings (c :: w.store.feed.changes.drop (w.position + 1))).also missed) :=
        ⟨rfl, rfl, h.opened, hattended⟩
      have hhandled := hv.handle_outages ho (hsuf.mem List.mem_cons_self) he hresp
      show v.Endures w.settings busy (((World.handle c).run v).2.news.also _) _
      rw [hhandled.news_eq]
      exact hhandled
    · -- Nothing is searched for, so nothing fails.
      obtain rfl : d = {} := hs fun stage hl => hlooks ⟨stage, hl⟩
      have hquiet : ({ w with position } : World).Quiet := h.quiet
      rw [show World.amid { w with position } {} = { w with position } from calmed_quiet hquiet]
      exact (Endures.of_quiet hquiet hkeeps hdelivered).mono (Due.also_mono .inr)
  | lagged n =>
    obtain ⟨v, hrestored⟩ := hs
    let logged : World := { w with position, disturbances := d, log := .watchLagged n :: w.log }
    have hlogged : logged.calmed.Attends w.settings busy (w.news.also missed) :=
      ⟨rfl, rfl, h.opened, h.attended⟩
    have hstart : (World.amid { w with position } d).Endures w.settings busy (w.news.also missed)
        logged :=
      ⟨hlogged, keeps_of (w := World.amid { w with position } {}) (.refl _) (.refl _) w.counters _,
        ho⟩
    have hv := hlogged.restore_outages ho hrestored
    have hsending : v.calmed.Attends w.settings busy
        ((Due.sending v.gates.stages).also fun _ => False) := hv.attends.mono Due.le_also
    have hsent := hsending.sendAll_outages hv.outages
    have hruns : ((onDelivery (.lagged n)).run (World.amid { w with position } d)).2 =
        ((sendAll v.gates.stages).run v).2 := by
      rw [onDelivery_lagged]
      exact resync_of_restore hrestored
    rw [hruns]
    refine (hstart.trans (hv.trans hsent)).mono ⟨False.elim, ?_, False.elim⟩
    rintro stage (hl | hf | hb)
    · cases hl
    · exact hf.elim
    · exact .inr (.inl ⟨v, hrestored, hb⟩)

-- ---------------------------------------------------------------------------
-- An attempt
-- ---------------------------------------------------------------------------

/-- The promotion finds another one ahead of it, so an attempt at it searches at its stage. -/
def StandsBack (w : World) (key : PromotionKey) (stage : StageKey) : Prop :=
  ∃ p head, w.store.promotion? key = some p ∧ p.isTerminal = false ∧ p.stageKey = stage ∧
    (w.gates.claim p.stageKey (.ofPromotion p)).1 = .notNext head

theorem StandsBack.unique {stage' : StageKey} (h : w.StandsBack key stage)
    (h' : w.StandsBack key stage') : stage = stage' := by
  obtain ⟨p, _, hp, -, rfl, -⟩ := h
  obtain ⟨q, _, hq, -, rfl, -⟩ := h'
  rw [hp] at hq
  cases hq
  rfl

def SparesAttempt (w : World) (key : PromotionKey) : Prop :=
  ¬ w.LookFails ∧ ((∀ stage, ¬ w.StandsBack key stage) → w.Quiet)

theorem reconcile_standBack (ho : w.OnlyOutages) (hs : ¬ w.LookFails)
    (hp : w.store.promotion? key = some p) (ht : p.isTerminal = false) {head : PromotionKey}
    (hc : (w.gates.claim p.stageKey (.ofPromotion p)).1 = .notNext head) (mechanics : Mechanics) :
    ∃ counters log, (reconcile mechanics key).run.run w =
      (.ok .done, ((enqueueNext p.stageKey).run { w with
        gates := (w.gates.claim p.stageKey (.ofPromotion p)).2
        disturbances := w.disturbances.rest .readPromotion
        counters, log }).2) := by
  let counted : World :=
    { w with counters := { w.counters with reconciles := w.counters.reconciles + 1 } }
  have hcounted : counted.OnlyOutages := ho
  have hseen : w.seen key = .ok (some p) := by
    unfold LookFails at hs
    unfold seen
    cases hout : (w.disturbances.next .readPromotion).outage with
    | some text => simp [hout] at hs
    | none => rw [hp]
  have hlook : (look key).run w = (.ok (some p),
      { counted with disturbances := w.disturbances.rest .readPromotion }) :=
    (readPromotion_run hcounted key).trans (congrArg (·, _) hseen)
  unfold counted at hlook
  rw [reconcile_run, hlook]
  unfold proceedTo proceed
  simp only [ht, attempt_bind, attempt_lift, claimStage_run, hc]
  exact ⟨_, _, rfl⟩

theorem Attends.standBack_outages {due : Due} (h : w.calmed.Attends settings busy due)
    (ho : w.OnlyOutages) (hs : ¬ w.LookFails) (hb : busy key) (hw : w.StandsBack key stage)
    (mechanics : Mechanics) (sub : ∀ {k}, busy' k → busy k)
    (kept : ∀ {k}, busy k → busy' k ∨ k = key) :
    w.Endures settings busy'
      (((due.look stage).looked stage).also fun other =>
        other = stage ∧ w.Failed ((reconcile mechanics key).run.run w).2)
      ((reconcile mechanics key).run.run w).2 := by
  obtain ⟨p, head, hp, ht, rfl, hc⟩ := hw
  obtain ⟨counters, log, hr⟩ := reconcile_standBack ho hs hp ht hc mechanics
  let left : World := { w with
    gates := (w.gates.claim p.stageKey (.ofPromotion p)).2
    disturbances := w.disturbances.rest .readPromotion
    counters, log }
  have hspared : left.disturbances.failures = w.disturbances.failures :=
    Disturbances.failures_spared (by simpa [LookFails] using hs)
  have hleft : w.Endures settings busy' (due.look p.stageKey) left :=
    ⟨h.standBack hb hp ht hc counters log sub kept,
      keeps_of (w := w.calmed) (holds_claim _) (.refl _) counters log, ho.rest _⟩
  rw [hr]
  refine hleft.trans ?_
  unfold Failed
  rw [← hspared]
  exact hleft.attends.enqueueNext_outages hleft.outages p.stageKey

end World

-- ---------------------------------------------------------------------------
-- Systems in which looks fail
-- ---------------------------------------------------------------------------

def Rules.idle : Rules := ⟨fun s w => w.Respects s, fun _ => False⟩

/-- A system, with the stages where the latest search broke off. -/
structure Troubled where
  system : System
  missed : StageKey → Prop

namespace Troubled

open World

def empty (settings : Settings) (defaultNamespace : String) : Troubled :=
  ⟨.empty settings defaultNamespace, fun _ => False⟩

/-- A step in which any looks may fail that are made in a search for the next promotion of a stage.
What is laid down for other calls is forgotten with the step. -/
inductive Step (t : Troubled) : Troubled → Prop where
  /-- Any step but a delivery, which moves the position, and an attempt. -/
  | apart (step : System.Step .idle t.system s)
      (unheard : s.world.position = t.system.world.position) : Step t ⟨s, t.missed⟩
  | deliver (delivery : Delivery) (d : Disturbances)
      (received : receive.run t.system.world = (some delivery, w))
      (outages : (w.amid d).OnlyOutages) (spares : (w.amid d).SparesDelivery delivery) :
      Step t ⟨{ t.system with world := ((onDelivery delivery).run (w.amid d)).2.calmed },
        fun stage => (w.amid d).BreaksOffAt delivery stage ∨
          t.missed stage ∧ ¬ delivery.LooksAt w.settings stage⟩
  | attempt (key : PromotionKey) (mechanics : Mechanics) (d : Disturbances)
      (job : t.system.jobs = before ++ ⟨key, .taken⟩ :: later)
      (outages : (t.system.world.amid d).OnlyOutages)
      (spares : (t.system.world.amid d).SparesAttempt key)
      (tried : (reconcile mechanics key).run.run (t.system.world.amid d) = (outcome, w)) :
      Step t ⟨⟨w.calmed, before ++ ⟨key, .tried outcome⟩ :: later⟩,
        fun stage =>
          t.system.world.StandsBack key stage ∧ (t.system.world.amid d).Failed w ∨
            t.missed stage ∧ ¬ t.system.world.StandsBack key stage⟩

inductive Reachable (start : Troubled) : Troubled → Prop where
  | start : Reachable start start
  | step (reached : Reachable start t) (step : Step t t') : Reachable start t'

end Troubled

namespace System.Watched

open World

variable {settings : Settings} {missed : StageKey → Prop} {s : System} {w : World}
  {key : PromotionKey} {before later : List Job} {outcome : Except ReconcileError Outcome}
  {d : Disturbances}

theorem endure (h : s.Watched settings missed) {missed' : StageKey → Prop} {jobs : List Job}
    {position : Nat} (hp : position ≤ s.world.store.feed.front)
    (he : (World.amid { s.world with position } d).Endures settings (Busy jobs)
      (w.news.also missed') w) (same : jobs.map Job.key = s.jobs.map Job.key) :
    (⟨w.calmed, jobs⟩ : System).Watched settings missed' where
  inHand := by
    rw [same]
    exact h.inHand.fed ⟨he.keeps.held, he.keeps.closed, he.keeps.sound⟩
  position_le := by
    rw [he.keeps.position, he.keeps.store]
    exact hp
  attends := he.attends

theorem deliver_outages (h : s.Watched settings missed) {delivery : Delivery}
    (hr : receive.run s.world = (some delivery, w)) (ho : (w.amid d).OnlyOutages)
    (hs : (w.amid d).SparesDelivery delivery) :
    ({ s with world := ((onDelivery delivery).run (w.amid d)).2.calmed } : System).Watched settings
      fun stage => (w.amid d).BreaksOffAt delivery stage ∨
        missed stage ∧ ¬ delivery.LooksAt w.settings stage := by
  obtain rfl := h.attends.settings_eq
  have hdelivered := h.attends.delivered_outages hr ho hs
  obtain ⟨position, hnext, rfl⟩ := receive_ok hr
  refine h.endure ?_ hdelivered rfl
  cases delivery with
  | change c =>
    obtain ⟨rfl, hlt, -⟩ := Feed.receive_change hnext
    exact hlt
  | lagged n => exact Feed.receive_lagged hnext

theorem attempt_outages (h : s.Watched settings missed) {mechanics : Mechanics}
    (hj : s.jobs = before ++ ⟨key, .taken⟩ :: later) (ho : (s.world.amid d).OnlyOutages)
    (hs : (s.world.amid d).SparesAttempt key)
    (ht : (reconcile mechanics key).run.run (s.world.amid d) = (outcome, w)) :
    (⟨w.calmed, before ++ ⟨key, .tried outcome⟩ :: later⟩ : System).Watched settings fun stage =>
      s.world.StandsBack key stage ∧ (s.world.amid d).Failed w ∨
        missed stage ∧ ¬ s.world.StandsBack key stage := by
  by_cases hstands : ∃ stage, s.world.StandsBack key stage
  · obtain ⟨stage, hw⟩ := hstands
    have hb : Busy s.jobs key := by rw [hj, busy_middle]; exact .inl ⟨rfl, trivial⟩
    have hcalm : (s.world.amid d).calmed.Attends settings (Busy s.jobs)
        (s.world.news.also missed) :=
      ⟨h.attends.settings_eq, rfl, h.attends.opened, h.attends.attended⟩
    have sub {k : PromotionKey} (hk : Busy (before ++ ⟨key, .tried outcome⟩ :: later) k) :
        Busy s.jobs k := hj ▸ busy_of_tried hk
    have hendures := hcalm.standBack_outages ho hs.1 hb hw mechanics sub
      fun hk => (busy_tried (hj ▸ hk)).imp_right And.left
    rw [ht] at hendures
    refine h.endure (d := d) h.position_le ?_ (by simp [hj])
    rw [hendures.news_eq]
    refine hendures.mono ⟨id, ?_, id⟩
    rintro other (⟨(hn | hm) | rfl, hne⟩ | ⟨rfl, hf⟩)
    · exact .inl hn
    · exact .inr (.inr ⟨hm, fun hother => hne (hother.unique hw)⟩)
    · exact absurd rfl hne
    · exact .inr (.inl ⟨hw, hf⟩)
  · -- It does not search, so nothing fails.
    obtain rfl : d = {} := hs.2 fun stage hw => hstands ⟨stage, hw⟩
    have hquiet : s.world.amid {} = s.world := calmed_quiet h.attends.quiet
    rw [hquiet] at ht
    have hattempt := h.attempt hj ht
    rw [calmed_quiet hattempt.attends.quiet]
    exact hattempt.mono fun hm => .inr ⟨hm, fun hw => hstands ⟨_, hw⟩⟩

end System.Watched

namespace Troubled

theorem Step.watched {settings : Settings} {t t' : Troubled} (hs : Step t t')
    (h : t.system.Watched settings t.missed) : t'.system.Watched settings t'.missed := by
  cases hs with
  | apart step unheard => exact h.step (fun _ _ => id) step
  | deliver delivery d received outages spares => exact h.deliver_outages received outages spares
  | attempt key mechanics d job outages spares tried =>
    exact h.attempt_outages job outages spares tried

theorem Reachable.watched {settings : Settings} {ns : String} {t : Troubled}
    (h : Reachable (empty settings ns) t) : t.system.Watched settings t.missed := by
  induction h with
  | start => exact System.Watched.empty settings ns _
  | step reached step ih => exact step.watched ih

end Troubled

namespace World

variable {w u : World}

theorem not_failed (h : w.Quiet) : ¬ w.Failed u := by
  unfold Failed
  rw [h]
  exact Nat.not_lt_zero _

theorem not_breaksOff {stages : List StageKey} {stage : StageKey} (h : w.Quiet) :
    ¬ BreaksOff stages w stage := by
  induction stages generalizing w with
  | nil => exact id
  | cons first rest ih =>
    rintro (⟨-, hf⟩ | hb)
    · exact not_failed h hf
    · exact ih ((keeps_enqueueNext h first).quiet h) hb

theorem not_breaksOffAt {delivery : Delivery} {stage : StageKey} (h : w.Quiet) :
    ¬ w.BreaksOffAt delivery stage := by
  cases delivery with
  | change c => exact fun hb => not_failed h hb.2
  | lagged n =>
    rintro ⟨u, hr, hb⟩
    have hlogged : World.Quiet { w with log := .watchLagged n :: w.log } := h
    exact not_breaksOff (((keeps_restore hlogged).holds hr).quiet hlogged) hb

theorem sparesDelivery_quiet {delivery : Delivery} (h : w.Quiet) : w.SparesDelivery delivery := by
  cases delivery with
  | change c => exact fun _ => h
  | lagged n =>
    have hlogged : World.Quiet { w with log := .watchLagged n :: w.log } := h
    obtain ⟨_, u, hr, -⟩ := keeps_restore hlogged
    exact ⟨u, hr⟩

theorem looks_quiet (h : w.Quiet) : ¬ w.LookFails := by
  unfold LookFails
  rw [h]
  exact Bool.false_ne_true

end World

namespace Troubled

open World

theorem Reachable.unmissed {start : Troubled} {w : World} {jobs : List Job}
    {missed : StageKey → Prop} (h : Reachable start ⟨⟨w.calmed, jobs⟩, missed⟩) (hw : w.Quiet)
    (none_ : ∀ stage, ¬ missed stage) : Reachable start ⟨⟨w, jobs⟩, fun _ => False⟩ := by
  obtain rfl : missed = fun _ => False := funext fun stage => eq_false (none_ stage)
  rwa [calmed_quiet hw] at h

/-- A run in which nothing fails misses no stage. -/
theorem reachable_of_system {settings : Settings} {ns : String} {s : System}
    (h : System.Reachable .lenient (.empty settings ns) s) :
    Reachable (empty settings ns) ⟨s, fun _ => False⟩ := by
  have quiet {r : System} (hr : System.Reachable .lenient (.empty settings ns) r) :
      r.world.Quiet :=
    ((System.Attends.empty settings ns).reachable (fun _ _ => id) hr).attends.quiet
  induction h with
  | start => exact .start
  | @step s s' reached step ih =>
    have hafter := quiet (reached.step step)
    cases step with
    | write ask allowed => exact ih.step (.apart (.write ask allowed) rfl)
    | @deliver delivery w received =>
      have hread : (w.amid {}).Quiet := rfl
      have hsame : w.amid {} = w := by
        obtain ⟨position, -, hw⟩ := System.receive_ok received
        exact calmed_quiet (hw ▸ quiet reached)
      have hstep := ih.step (.deliver delivery {} received (outages_quiet hread)
        (sparesDelivery_quiet hread))
      rw [hsame] at hread hstep
      exact hstep.unmissed hafter fun stage hm => hm.elim (not_breaksOffAt hread) And.left
    | take taken =>
      refine ih.step (.apart (.take taken) ?_)
      rw [run_takeKey] at taken
      cases taken
      rfl
    | attempt key mechanics employed job tried =>
      have hbefore : World.Quiet (s.world.amid {}) := rfl
      have hsame : s.world.amid {} = s.world := calmed_quiet (quiet reached)
      have hstep := ih.step (.attempt key mechanics {} job (outages_quiet hbefore)
        ⟨looks_quiet hbefore, fun _ => hbefore⟩ (hsame ▸ tried))
      exact hstep.unmissed hafter fun stage hm =>
        hm.elim (fun hf => not_failed hbefore hf.2) And.left
    | report key outcome job =>
      obtain ⟨counters, log, hr⟩ := onOutcome_run key outcome s.world
      exact ih.step (.apart (.report key outcome job) (by rw [hr]))
    | giveBack key job => exact ih.step (.apart (.giveBack key job) rfl)
    | elapse now onward => exact ih.step (.apart (.elapse now onward) rfl)
    | retime delayed same => exact ih.step (.apart (.retime delayed same) rfl)

end Troubled

/-- In every quiescent state that is reached while looks of searches fail, every stage is idle, and
only where the latest search broke off is anybody left in line. -/
theorem missed_of_waiting (settings : Settings) (ns : String) {t : Troubled}
    (h : Troubled.Reachable (.empty settings ns) t) (hq : t.system.Quiescent) (stage : StageKey) :
    t.system.world.gates.active? stage = none ∧
      (t.system.world.gates.pending stage ≠ [] → t.missed stage) := by
  obtain ⟨idle, hline⟩ := h.watched.idle hq stage
  refine ⟨idle, fun hwaiting => hline.resolve_right fun hempty => hwaiting ?_⟩
  rw [Gates.pending, hempty]
  rfl

-- ---------------------------------------------------------------------------
-- One look that fails
-- ---------------------------------------------------------------------------

namespace Troubled.Sample

open World System.Sample

def second : Promotion :=
  { metadata := { ns := "ns", name := "b", created := ⟨0, 0⟩ }, spec := ⟨"test", "v1"⟩ }

/-- Two promotions into one stage were created. The first one has held the stage and ended since;
the promoter is about to hear of that. -/
def ending : World :=
  let started := { world with store := world.store.after (.create second) }
  (Run.runUntil (fun w => w.position == 3) 9 ⟨started, {}⟩).world

theorem ending_reachable : System.Reachable .lenient (.empty {} "argocd") ⟨ending, []⟩ := by
  have hworld : System.Reachable .lenient (.empty {} "argocd") ⟨world, []⟩ :=
    System.Sample.reachable.mono (fun _ _ => And.left) fun _ => id
  have hunused : world.store.Unused ⟨"ns", "b"⟩ := by
    have hchanges : world.store.feed.changes = [.promotionCreated (promotion.stamped 2)] := by
      decide +kernel
    intro p hp
    rw [hchanges] at hp
    cases List.mem_singleton.mp hp
    decide
  exact Run.reaches_runUntil (B := fun _ => True) (fun _ _ => trivial) (fun _ _ _ _ => trivial) _ 9
    trivial (hworld.step (.write (.create second) hunused))

def down : Disturbances := ⟨[{ call := .readPromotion, disturbance := { outage := some "down" } }]⟩

def stalled : World :=
  match receive.run ending with
  | (some delivery, w) => ((onDelivery delivery).run (w.amid down)).2.calmed
  | (none, w) => w

theorem stalled_reachable : ∃ missed, Reachable (empty {} "argocd") ⟨⟨stalled, []⟩, missed⟩ := by
  have hends : (match receive.run ending with
      | (some (.change c), w) => c.ended?.any fun p => w.settings.isResponsibleFor p.metadata
      | (some (.lagged _), _) | (none, _) => false) = true := by decide +kernel
  unfold stalled
  rcases hr : receive.run ending with ⟨_ | c | n, w⟩
  · rw [hr] at hends
    cases hends
  · rw [hr] at hends
    obtain ⟨p, hp, hresp⟩ := (Option.any_eq_true _ _).mp hends
    have hlooks : c.LooksAt w.settings p.stageKey := ⟨p, hp, rfl, hresp⟩
    refine ⟨_, (reachable_of_system ending_reachable).step
      (.deliver (.change c) down hr ?_ fun hnone => absurd hlooks (hnone _))⟩
    intro s hs
    exact ⟨some "down", by rw [List.mem_singleton.mp hs]⟩
  · rw [hr] at hends
    cases hends

theorem stalled_quiescent : System.Quiescent ⟨stalled, []⟩ :=
  ⟨by decide +kernel, by decide +kernel⟩

end Troubled.Sample

open Troubled.Sample in
theorem missed_of_waiting_sample : ∃ t stage, Troubled.Reachable (.empty {} "argocd") t ∧
    t.system.Quiescent ∧ t.system.world.gates.pending stage ≠ [] ∧ t.missed stage := by
  obtain ⟨missed, hreached⟩ := stalled_reachable
  have hwaiting : stalled.gates.pending ⟨"ns", "test"⟩ ≠ [] := by decide +kernel
  obtain ⟨-, hmissed⟩ := missed_of_waiting {} "argocd" hreached stalled_quiescent ⟨"ns", "test"⟩
  exact ⟨_, _, hreached, stalled_quiescent, hwaiting, hmissed hwaiting⟩

open Troubled.Sample in
theorem stage_stalls : ∃ t p, Troubled.Reachable (.empty {} "argocd") t ∧ t.system.Quiescent ∧
    t.system.world.gates.active? p.stageKey = none ∧
    p.key ∈ t.system.world.gates.pending p.stageKey ∧
    t.system.world.store.promotion? p.key = some p ∧ p.isTerminal = false := by
  obtain ⟨missed, hreached⟩ := stalled_reachable
  have hidle : stalled.gates.active? ⟨"ns", "test"⟩ = none := by decide +kernel
  have hwaits : ⟨"ns", "b"⟩ ∈ stalled.gates.pending ⟨"ns", "test"⟩ := by decide +kernel
  have hstored : stalled.store.promotion? ⟨"ns", "b"⟩ = some (second.stamped 3) := by
    decide +kernel
  exact ⟨_, second.stamped 3, hreached, stalled_quiescent, hidle, hwaits, hstored, rfl⟩

end StageGate
