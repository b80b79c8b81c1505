import StageGate.Proofs.Promoter.Attempt
import StageGate.Proofs.Promoter.Attended
import StageGate.Proofs.Promoter.Frame

/-!
# What an action does for the stages

`World.Attends` says of a world that its stages are attended, where a promotion is tended as long
as the queue awaits its key or a worker is busy with it. Each of the promoter's actions keeps
this, and takes from what is due the part that it saw to: a change that is handled is no longer
due, and after a resync nothing is.
-/

namespace StageGate

namespace World

def news (w : World) : Due := .ofNews w.settings (w.store.feed.changes.drop w.position)

structure Attends (settings : Settings) (busy : PromotionKey → Prop) (due : Due) (w : World) :
    Prop where
  settings_eq : w.settings = settings
  quiet : w.Quiet
  opened : w.queue.closed = false
  attended : Attended settings (fun k => w.queue.Awaits k ∨ busy k) due w.store w.gates

variable {settings : Settings} {busy busy' : PromotionKey → Prop} {due due' : Due} {w u : World}
  {stage : StageKey} {k : PromotionKey} {p : Promotion} {c : Change} {rest : List Change}
  {missed : StageKey → Prop}

theorem attends_start (settings : Settings) {store : Store} (hc : store.Chronicle)
    (position : Nat) :
    ({ World.start settings store with position } : World).Attends settings (fun _ => False)
      ⟨fun _ _ => False, fun _ => False, fun _ => True⟩ where
  settings_eq := rfl
  quiet := rfl
  opened := rfl
  attended :=
    { chronicle := hc
      expected := fun hk => by
        rcases hk with (hd | ⟨d, hd, -⟩) | hb
        · cases hd
        · cases hd
        · cases hb
      gates := fun stage =>
        { registered := fun hs => (Gate.not_stands_empty hs).elim
          awake := fun hh => by cases hh
          ending := fun hh => by cases hh
          next := fun hn => by cases hn
          placed := fun _ _ _ => .inr trivial } }

-- ---------------------------------------------------------------------------
-- The queue
-- ---------------------------------------------------------------------------

theorem awaits_dispatched (hc : w.queue.closed = false) (g : Gate) :
    (w.dispatched g).Awaits k ↔ g.next? = some k ∨ w.queue.Awaits k := by
  unfold dispatched
  cases g.next? with
  | none => simp
  | some next => rw [WorkQueue.awaits_addRateLimited hc, Option.some.injEq, eq_comm]

theorem awaits_admitted (hc : w.queue.closed = false) (key : PromotionKey) (a : Admission) :
    (w.admitted key a).Awaits k ↔ a = .becameActive ∧ k = key ∨ w.queue.Awaits k := by
  cases a with
  | becameActive => simp [admitted, WorkQueue.awaits_add hc]
  | queued => simp [admitted]

theorem awaits_answered (hc : w.queue.closed = false) (key : PromotionKey)
    (outcome : Except ReconcileError Outcome) :
    (w.answered key outcome).Awaits k ↔ outcome ≠ .ok .done ∧ k = key ∨ w.queue.Awaits k := by
  rcases outcome with e | _ | delay
  · simp [answered, WorkQueue.awaits_addRateLimited hc]
  · simp only [answered, ne_eq, not_true_eq_false, false_and, false_or]
    rfl
  · have hforget : (w.queue.forget key).closed = false := hc
    simp only [answered, WorkQueue.awaits_addAfter hforget, ne_eq, Except.ok.injEq, reduceCtorEq,
      not_false_eq_true, true_and]
    rfl

-- ---------------------------------------------------------------------------
-- Single effects
-- ---------------------------------------------------------------------------

namespace Attends

theorem mono (h : w.Attends settings busy due) (hd : due.Le due') : w.Attends settings busy due' :=
  ⟨h.settings_eq, h.quiet, h.opened, h.attended.mono hd⟩

theorem logged (h : w.Attends settings busy due) (counters : Counters) (log : List LogRecord) :
    ({ w with counters, log } : World).Attends settings busy due :=
  ⟨h.settings_eq, h.quiet, h.opened, h.attended⟩

theorem sent (h : w.Attends settings busy due) (stage : StageKey) (counters : Counters)
    (log : List LogRecord) :
    ({ w with
      gates := w.gates.passEnded w.store.hasEnded stage
      queue := w.dispatched ((w.gates.passEnded w.store.hasEnded stage).gate stage)
      counters, log } : World).Attends settings busy (due.looked stage) := by
  refine ⟨h.settings_eq, h.quiet, (fed_dispatched w _).closed.trans h.opened, ?_⟩
  have hsent := fun k => awaits_dispatched (k := k) h.opened
    ((w.gates.passEnded w.store.hasEnded stage).gate stage)
  refine (h.attended.passEnded stage).retend (fun ht => .inl ?_) (fun ht => .inl ?_)
  · rcases ht with ht | ht
    · exact ((hsent _).mp ht).elim .inr (fun ha => .inl (.inl ha))
    · exact .inl (.inr ht)
  · rcases ht with (ht | ht) | ht
    · exact .inl ((hsent _).mpr (.inr ht))
    · exact .inr ht
    · exact .inl ((hsent _).mpr (.inl ht))

theorem enqueueNext (h : w.Attends settings busy due) (stage : StageKey) :
    ((World.enqueueNext stage).run w).2.Attends settings busy (due.looked stage) := by
  obtain ⟨counters, log, hr⟩ := enqueueNext_quiet h.quiet stage
  rw [hr]
  exact h.sent stage counters log

theorem conclude (h : w.Attends settings busy due) (hk : w.store.hasEnded k = true)
    (reg : w.store.Registered settings stage k) (counters : Counters) (log : List LogRecord) :
    ({ w with gates := (w.gates.conclude stage k).2, counters, log } : World).Attends settings busy
      (due.freed stage k) :=
  ⟨h.settings_eq, h.quiet, h.opened, h.attended.conclude hk reg⟩

theorem release (h : w.Attends settings busy due) (hk : w.store.hasEnded k = true)
    (reg : w.store.Registered settings stage k) :
    ((World.release stage k).run w).2.Attends settings busy ((due.freed stage k).looked stage) := by
  obtain ⟨counters, log, hr⟩ := release_run stage k w
  rw [hr]
  exact (h.conclude hk reg counters log).enqueueNext stage

theorem arrive (h : w.Attends settings busy due) (hp : settings.worksOn p = true)
    (reg : w.store.Registered settings p.stageKey p.key)
    (told : w.store.hasEnded p.key = true → due.ends p.stageKey p.key) :
    ((onPromotionCreated p).run w).2.Attends settings busy (due.arrived p.key) := by
  obtain ⟨counters, log, hrun⟩ := onPromotionCreated_run (h.settings_eq ▸ hp)
  rw [hrun]
  refine ⟨h.settings_eq, h.quiet, (fed_admitted w _ _).closed.trans h.opened, ?_⟩
  have hadmitted := fun k => awaits_admitted (k := k) h.opened p.key
    (w.gates.enroll p.stageKey (.ofPromotion p)).1
  refine h.attended.enroll reg (fun ht => ht.imp (fun ha => (hadmitted _).mpr (.inr ha)) id)
    (fun ht => ?_) (fun ha => .inl ((hadmitted _).mpr (.inl ⟨ha, rfl⟩))) told
  rcases ht with ht | ht
  · exact ((hadmitted _).mp ht).elim (fun ha => .inr ha.2) (fun ha => .inl (.inl ha))
  · exact .inl (.inr ht)

theorem ignore (h : w.Attends settings busy due) (hp : settings.worksOn p = false)
    (gone : ∀ q, w.store.promotion? p.key = some q → settings.worksOn q = false) :
    ((onPromotionCreated p).run w).2.Attends settings busy (due.arrived p.key) := by
  rw [onPromotionCreated_pass (h.settings_eq ▸ hp)]
  refine ⟨h.settings_eq, h.quiet, h.opened, h.attended.narrow (fun _ _ => id) (fun _ => id) ?_⟩
  intro k q hq hw ha
  refine ⟨ha, ?_⟩
  rintro rfl
  rw [gone q hq] at hw
  cases hw

-- ---------------------------------------------------------------------------
-- A change is handled
-- ---------------------------------------------------------------------------

theorem skip (h : w.Attends settings busy ((Due.ofNews settings (c :: rest)).also missed))
    (he : c.ended? = none) (hc : ∀ p, c ≠ .promotionCreated p) :
    w.Attends settings busy ((Due.ofNews settings rest).also missed) := by
  have hlook (stage : StageKey) : ¬ c.LooksAt settings stage := by
    rintro ⟨p, hp, -⟩
    rw [he] at hp
    cases hp
  refine h.mono (Due.Le.also ?_)
  exact
    { ends := Due.ends_of_cons fun p hp => by rw [he] at hp; cases hp
      looks := Due.looks_of_cons (hlook _)
      arrivals := Due.arrivals_of_cons fun p hp => absurd hp (hc p) }

theorem handleEnded (h : w.Attends settings busy ((Due.ofNews settings (c :: rest)).also missed))
    (hm : c ∈ w.store.feed.changes) (he : c.ended? = some p) :
    ((handle c).run w).2.Attends settings busy
      ((Due.ofNews settings rest).also fun stage => missed stage ∧ ¬ c.LooksAt settings stage) := by
  have hcreated : ∀ q, c ≠ .promotionCreated q := by rintro q rfl; cases he
  rw [handle_ended he, h.settings_eq]
  have chronicle := h.attended.chronicle
  cases hr : settings.isResponsibleFor p.metadata with
  | true =>
    have reg := chronicle.registered_of_ended hm he hr
    exact (h.release (chronicle.past hm he) reg).mono (Due.released_le he)
  | false =>
    have hlook (stage : StageKey) : ¬ c.LooksAt settings stage := by
      rintro ⟨q, hq, -, hresponsible⟩
      rw [he] at hq
      cases hq
      rw [hr] at hresponsible
      cases hresponsible
    refine ⟨h.settings_eq, h.quiet, h.opened, h.attended.narrow ?_ ?_ ?_⟩
    · -- The holder of a stage is one that the promoter works on, so this is not its end.
      intro stage k hh _ hd
      have hmore : (Due.ofNews settings (c :: rest)).ends stage k := hd
      refine Due.ends_of_cons (fun q hq hk => ?_) hmore
      rw [he] at hq
      cases hq
      have reg := (h.attended.gates stage).registered (.inl hh)
      have hspec := chronicle.end_of_registered reg hm he hk
      rw [hspec.2] at hr
      cases hr
    · exact fun {stage _} _ =>
        Or.imp (Due.looks_of_cons (hlook stage)) fun hl => ⟨hl, hlook stage⟩
    · intro k _ _ _ ha
      have hmore : (Due.ofNews settings (c :: rest)).arrivals k := ha
      exact Due.arrivals_of_cons (fun q hq => absurd hq (hcreated q)) hmore

theorem handleCreated
    (h : w.Attends settings busy
      ((Due.ofNews settings (.promotionCreated p :: rest)).also missed))
    (hsuf : .promotionCreated p :: rest <:+ w.store.feed.changes) :
    ((handle (.promotionCreated p)).run w).2.Attends settings busy
      ((Due.ofNews settings rest).also missed) := by
  have chronicle := h.attended.chronicle
  have hm : .promotionCreated p ∈ w.store.feed.changes := hsuf.mem List.mem_cons_self
  have hle : ((Due.ofNews settings (.promotionCreated p :: rest)).arrived p.key).Le
      (.ofNews settings rest) :=
    { ends := Due.ends_of_cons fun q hq => by cases hq
      looks := Due.looks_of_cons fun ⟨_, hq, _⟩ => by cases hq
      arrivals := fun ⟨ha, hne⟩ =>
        Due.arrivals_of_cons (fun q hq => by cases hq; exact hne.symm) ha }
  suffices harrived : ((handle (.promotionCreated p)).run w).2.Attends settings busy
      (((Due.ofNews settings (.promotionCreated p :: rest)).arrived p.key).also missed) from
    harrived.mono hle.also
  by_cases hp : settings.worksOn p = true
  · obtain ⟨ht, hr⟩ := Settings.worksOn_iff.mp hp
    refine h.arrive hp ⟨p, hm, rfl, rfl, hr⟩ fun he => ?_
    obtain ⟨c, hc, q, hq, hk⟩ := chronicle.told hsuf ht he
    exact ⟨c, List.mem_cons_of_mem _ hc, q, hq, hk⟩
  · refine h.ignore (by simpa using hp) fun q hq => ?_
    -- What is stored under the key stems from this very creation.
    obtain ⟨q', hq', hb⟩ := chronicle.created hq
    have hkey := (chronicle.key_eq hq).symm.trans (Promotion.key_of_bare hb).symm
    obtain rfl := chronicle.once hm hq' hkey
    cases hw : settings.worksOn q with
    | false => rfl
    | true =>
      obtain ⟨ht, hr⟩ := Settings.worksOn_iff.mp hw
      rw [← settings.responsible_of_bare hb] at hr
      cases hpt : p.isTerminal with
      | false => exact absurd (Settings.worksOn_iff.mpr ⟨hpt, hr⟩) hp
      | true =>
        have he := chronicle.final hm hpt
        rw [Store.hasEnded_of_stored hq, ht] at he
        cases he

theorem handle (h : w.Attends settings busy ((Due.ofNews settings (c :: rest)).also missed))
    (hsuf : c :: rest <:+ w.store.feed.changes) :
    ((World.handle c).run w).2.Attends settings busy
      ((Due.ofNews settings rest).also fun stage => missed stage ∧ ¬ c.LooksAt settings stage) := by
  cases he : c.ended? with
  | some p => exact h.handleEnded (hsuf.mem List.mem_cons_self) he
  | none =>
    have hlook (stage : StageKey) : ¬ c.LooksAt settings stage := by
      rintro ⟨p, hp, -⟩
      rw [he] at hp
      cases hp
    have hsame : (fun stage => missed stage ∧ ¬ c.LooksAt settings stage) = missed := by
      funext stage
      simp [hlook stage]
    rw [hsame]
    cases c with
    | promotionCreated p => exact h.handleCreated hsuf
    | promotionUpdated old new =>
      rw [handle_passed he]
      exact h.skip he (by rintro p ⟨⟩)
    | promotionDeleted p => cases he
    | applicationUpdated old new =>
      refine (handle_application h.quiet old new
        (I := fun u => u.store = w.store ∧
          u.Attends settings busy ((Due.ofNews settings rest).also missed))
        ⟨rfl, h.skip he (by rintro p ⟨⟩)⟩ ?_).2
      rintro k p u counters log hk ⟨hstore, hu⟩ hr
      refine ⟨hstore, hu.settings_eq, hu.quiet, (WorkQueue.closed_add _ _).trans hu.opened,
        hu.attended.retend (fun ht => ?_) (fun ht => .inl (ht.imp (fun ha => ?_) id))⟩
      · simp only [WorkQueue.awaits_add hu.opened, or_assoc] at ht
        rcases ht with rfl | ht
        · rw [← hstore] at hk
          obtain rfl := hu.attended.chronicle.key_eq hk
          exact .inr ⟨_, hu.attended.chronicle.registered_of_stored hk (hu.settings_eq ▸ hr)⟩
        · exact .inl ht
      · exact (WorkQueue.awaits_add hu.opened).mpr (.inr ha)

-- ---------------------------------------------------------------------------
-- After missed changes
-- ---------------------------------------------------------------------------

theorem releaseStale (h : w.Attends settings busy (.freeing (stage :: stages))) :
    Runs (World.releaseStale stage) w fun _ u => u.Attends settings busy (.freeing stages) := by
  have others (hidle : ∀ k, w.gates.active? stage = some k → w.store.hasEnded k = true → False) :
      w.Attends settings busy (.freeing stages) := by
    refine ⟨h.settings_eq, h.quiet, h.opened, h.attended.narrow ?_ (fun _ => id) (fun _ _ => id)⟩
    intro other k hh he hd
    rcases List.mem_cons.mp hd with rfl | hd
    · exact (hidle k hh he).elim
    · exact hd
  refine releaseStale_quiet h.quiet stage (fun hn => others fun k hh _ => ?_)
    (fun j hj hopen => others fun k hh he => ?_) (fun k counters log hh he => ?_)
  · rw [hn] at hh
    cases hh
  · rw [hj] at hh
    cases hh
    rw [hopen] at he
    cases he
  · have reg := (h.attended.gates stage).registered (.inl hh)
    have hfreed := h.conclude he reg counters log
    refine ⟨hfreed.settings_eq, hfreed.quiet, hfreed.opened,
      hfreed.attended.narrow ?_ (fun _ _ => trivial) (fun _ _ _ => trivial)⟩
    rintro other j hj - ⟨hd, -⟩
    rcases List.mem_cons.mp hd with rfl | hd
    · -- The stage has no holder any more.
      rw [show (w.gates.conclude other k).2.active? other =
        ((w.gates.conclude other k).2.gate other).holder from rfl, Gates.gate_conclude, if_pos rfl,
        Gate.conclude_of_holder hh] at hj
      cases hj
    · exact hd

end Attends

structure Admits (settings : Settings) (busy : PromotionKey → Prop) (due : Due)
    (list : List Promotion) (w : World) : Prop where
  attends : w.Attends settings busy (due.admitting list)
  listed : ∀ p ∈ list, w.store.promotion? p.key = some p ∧ settings.worksOn p = true

theorem Attends.admits (h : w.Attends settings busy due)
    (freed : ∀ stage k, w.gates.active? stage = some k → w.store.hasEnded k = false) :
    w.Admits settings busy due (toAdmit settings w.store.promotionList) := by
  have chronicle := h.attended.chronicle
  refine ⟨⟨h.settings_eq, h.quiet, h.opened, h.attended.narrow ?_ (fun _ => id) ?_⟩, ?_⟩
  · intro stage k hh he _
    rw [freed stage k hh] at he
    cases he
  · intro k p hp hw _
    exact ⟨p, mem_toAdmit.mpr ⟨Store.mem_promotionList_iff.mpr ⟨k, hp⟩, hw⟩, chronicle.key_eq hp⟩
  · intro p hp
    obtain ⟨hp, hw⟩ := mem_toAdmit.mp hp
    obtain ⟨k, hk⟩ := Store.mem_promotionList_iff.mp hp
    obtain rfl := chronicle.key_eq hk
    exact ⟨hk, hw⟩

theorem Admits.next {list : List Promotion} (h : w.Admits settings busy due (p :: list)) :
    ((onPromotionCreated p).run w).2.Admits settings busy due list := by
  obtain ⟨hk, hw⟩ := h.listed p List.mem_cons_self
  obtain ⟨ht, hr⟩ := Settings.worksOn_iff.mp hw
  have reg := h.attends.attended.chronicle.registered_of_stored hk hr
  have hopen : w.store.hasEnded p.key ≠ true := by rw [Store.hasEnded_of_stored hk, ht]; simp
  refine ⟨(h.attends.arrive hw reg fun he => absurd he hopen).mono
    ⟨id, id, fun ⟨⟨q, hq, hqk⟩, hne⟩ => ?_⟩, fun q hq => ?_⟩
  · rcases List.mem_cons.mp hq with rfl | hq
    · exact absurd hqk.symm hne
    · exact ⟨q, hq, hqk⟩
  · rw [(keeps_onPromotionCreated p).store]
    exact h.listed q (List.mem_cons_of_mem _ hq)

theorem Attends.restore (h : w.Attends settings busy due) :
    Runs World.restore w fun _ u => u.Attends settings busy (.sending u.gates.stages) := by
  have registered {u : World} {due : Due} (hu : u.Attends settings busy due) {stage : StageKey}
      {k : PromotionKey} (hs : (u.gates.gate stage).Stands k) : stage ∈ u.gates.stages :=
    Gates.mem_stages_of_stands hs
  refine restore_run (F := fun stages u => u.Attends settings busy (.freeing stages))
    (A := fun list u => u.Admits settings busy (.freeing []) list) ?_
    (fun stage rest u hu => hu.releaseStale) (fun u hu => ⟨hu.quiet, ?_⟩)
    (fun p rest u hu => hu.next) (fun u log hu => ?_)
  · exact ⟨h.settings_eq, h.quiet, h.opened, h.attended.narrow
      (fun hh _ _ => registered h (.inl hh)) (fun _ _ => trivial) (fun _ _ _ => trivial)⟩
  · rw [hu.settings_eq]
    refine hu.admits fun stage k hh => ?_
    cases he : u.store.hasEnded k with
    | false => rfl
    | true => cases (hu.attended.gates stage).ending hh he
  · have hlogged := hu.attends.logged u.counters log
    exact ⟨hlogged.settings_eq, hlogged.quiet, hlogged.opened, hlogged.attended.narrow
      (fun _ _ => id) (fun hn _ => registered hu.attends (Gate.stands_of_next? hn))
      (fun _ _ ⟨_, hp, _⟩ => by cases hp)⟩

/-- After a resync nothing is due. -/
theorem Attends.resync (h : w.Attends settings busy due) :
    (World.resync.run.run w).2.Attends settings busy (.sending []) := by
  obtain ⟨_, u, hr, hu⟩ := h.restore
  rw [resync_of_restore hr]
  refine sendAll_run (D := fun stages v => v.Attends settings busy (.sending stages)) hu
    fun stage rest v hv => (hv.enqueueNext stage).mono ⟨id, fun ⟨hs, hne⟩ => ?_, id⟩
  exact (List.mem_cons.mp hs).resolve_left hne

-- ---------------------------------------------------------------------------
-- An attempt
-- ---------------------------------------------------------------------------

section
variable {mechanics : Mechanics} {key : PromotionKey} {outcome : Except ReconcileError Outcome}

theorem Attends.claim (h : w.Attends settings busy due) (hb : busy key)
    (hp : w.store.promotion? key = some p) (ht : p.isTerminal = false) (counters : Counters)
    (log : List LogRecord) :
    ({ w with gates := (w.gates.claim p.stageKey (.ofPromotion p)).2, counters, log } :
      World).Attends settings busy (due.look p.stageKey) := by
  have chronicle := h.attended.chronicle
  obtain rfl := chronicle.key_eq hp
  obtain ⟨stage, reg⟩ := h.attended.expected (.inr hb)
  obtain ⟨rfl, -⟩ := chronicle.spec_of_registered reg hp
  exact ⟨h.settings_eq, h.quiet, h.opened, h.attended.claim reg (.inr hb)
    (by rw [Entry.ofPromotion, Store.hasEnded_of_stored hp, ht])⟩

/-- A worker leaves a promotion that has ended, or that neither holds its stage nor is the next
one. -/
theorem Attends.leave (h : w.Attends settings busy due) (hb : busy key)
    (hp : w.store.promotion? key = some p)
    (left : w.store.hasEnded key = true ∨ w.gates.active? p.stageKey ≠ some key ∧
      ((w.gates.gate p.stageKey).next? = some key → due.looks p.stageKey))
    (sub : ∀ {k}, busy' k → busy k) (kept : ∀ {k}, busy k → busy' k ∨ k = key) :
    w.Attends settings busy' due := by
  refine ⟨h.settings_eq, h.quiet, h.opened,
    h.attended.retend (fun ht => .inl (ht.imp id sub)) fun {k} ht => ?_⟩
  rcases ht with ha | hk
  · exact .inl (.inl ha)
  rcases kept hk with hk | rfl
  · exact .inl (.inr hk)
  refine .inr (left.imp id fun ⟨hactive, hnext⟩ stage => ?_)
  have chronicle := h.attended.chronicle
  have here (hs : (w.gates.gate stage).Stands k) : stage = p.stageKey :=
    (chronicle.spec_of_registered ((h.attended.gates stage).registered hs) hp).1.symm
  refine ⟨fun hh => ?_, fun hn => ?_⟩
  · rw [here (.inl hh)] at hh
    exact hactive hh
  · obtain rfl := here (Gate.stands_of_next? hn)
    exact hnext hn

theorem Attends.standBack (h : w.Attends settings busy due) (hb : busy key)
    (hp : w.store.promotion? key = some p) (ht : p.isTerminal = false) {head : PromotionKey}
    (hc : (w.gates.claim p.stageKey (.ofPromotion p)).1 = .notNext head) (counters : Counters)
    (log : List LogRecord) (sub : ∀ {k}, busy' k → busy k)
    (kept : ∀ {k}, busy k → busy' k ∨ k = key) :
    ({ w with gates := (w.gates.claim p.stageKey (.ofPromotion p)).2, counters, log } :
      World).Attends settings busy' (due.look p.stageKey) := by
  have hholder : (w.gates.claim p.stageKey (.ofPromotion p)).2.active? p.stageKey = none := by
    rw [Gates.active?, Gates.gate_claim_self, Gate.holder_of_notNext hc]
  exact (h.claim hb hp ht counters log).leave hb hp
    (.inr ⟨by simp [hholder], fun _ => .inr rfl⟩) sub kept

theorem Attends.unlook (h : w.Attends settings busy (due.look stage))
    (hh : w.gates.active? stage = some k) : w.Attends settings busy due :=
  ⟨h.settings_eq, h.quiet, h.opened, h.attended.unlook (Gate.Attended.next?_of_holder hh)⟩

theorem Attends.ran (h : w.Attends settings busy (w.news.also missed)) (hb : busy key)
    (hp : w.store.promotion? key = some p) (ht : p.isTerminal = false)
    (hpos : w.position ≤ w.store.feed.front) {running : Promotion} {s s' : Store}
    (marked : Marked w.store p running s) (concluded : Concluded mechanics s running outcome s')
    (sub : ∀ {k}, busy' k → busy k)
    (kept : ∀ {k}, busy k → busy' k ∨ k = key ∧ outcome = .ok .done) :
    ({ w with store := s' } : World).Attends settings busy'
      ((World.news { w with store := s' }).also missed) := by
  obtain rfl := h.settings_eq
  have chronicle := h.attended.chronicle
  obtain rfl := chronicle.key_eq hp
  obtain ⟨hstored, hbare, hphase, -⟩ := marked.spec hp ht
  have hmarked := marked.lawful chronicle hp ht
  have hs : s.Chronicle := chronicle.next hmarked
  have hconcluded := concluded.lawful hs hstored (Promotion.unended_of_running hphase)
  have hpos' : w.position ≤ s.feed.front := Nat.le_trans hpos (Store.front_le hmarked)
  refine ⟨rfl, h.quiet, h.opened, ?_⟩
  refine ((h.attended.news hpos hmarked).news hpos' hconcluded).retend
    (fun ht => .inl (ht.imp id sub)) fun {k} ht => ?_
  rcases ht with ha | hk
  · exact .inl (.inl ha)
  rcases kept hk with hk | ⟨rfl, hdone⟩
  · exact .inl (.inr hk)
  · exact .inr (.inl (Promotion.key_of_bare hbare ▸ concluded.hasEnded hs hdone))

/-- An attempt that is done leaves the promotion alone: it has ended, or it waits for another one.
-/
theorem Attends.tried (h : w.Attends settings busy (w.news.also missed)) (hb : busy key)
    (hpos : w.position ≤ w.store.feed.front) (ht : Tried mechanics key w outcome u)
    (sub : ∀ {k}, busy' k → busy k)
    (kept : ∀ {k}, busy k → busy' k ∨ k = key ∧ outcome = .ok .done) :
    u.Attends settings busy' (u.news.also missed) := by
  have kept' : ∀ {k}, busy k → busy' k ∨ k = key := fun hk => (kept hk).imp id And.left
  cases ht with
  | ended past counters =>
    refine ⟨h.settings_eq, h.quiet, h.opened,
      h.attended.retend (fun ht => .inl (ht.imp id sub)) fun {k} ht => ?_⟩
    rcases ht with ha | hk
    · exact .inl (.inl ha)
    · exact (kept' hk).imp .inr fun hk => .inl (by rw [hk]; exact past)
  | busy p stored unended other claim counters log =>
    obtain rfl := h.attended.chronicle.key_eq stored
    obtain ⟨hh, hne⟩ := Gate.holder_of_activeElsewhere claim
    have hholder :
        (w.gates.claim p.stageKey (.ofPromotion p)).2.active? p.stageKey = some other := by
      rw [Gates.active?, Gates.gate_claim_self, hh]
    refine ((h.claim hb stored unended counters log).unlook hholder).leave hb stored
      (.inr ⟨?_, fun hn => ?_⟩) sub kept'
    · simp only [hholder]
      exact fun he => hne (Option.some.inj he)
    · rw [Gate.Attended.next?_of_holder hholder] at hn
      cases hn
  | behind p stored unended head claim counters log =>
    have hleft := h.standBack hb stored unended claim counters log sub kept'
    have hk := keeps_enqueueNext hleft.quiet p.stageKey
    have hnews : World.news ((World.enqueueNext p.stageKey).run { w with
        gates := (w.gates.claim p.stageKey (.ofPromotion p)).2, counters, log }).2 = w.news := by
      rw [news, hk.settings, hk.store, hk.position]
      rfl
    rw [hnews]
    exact (hleft.enqueueNext p.stageKey).mono
      ⟨id, fun ⟨hl, hne⟩ => hl.resolve_right hne, id⟩
  | ran p stored unended claim running s s' marked concluded counters log =>
    obtain rfl := h.attended.chronicle.key_eq stored
    let claimed : World :=
      { w with gates := (w.gates.claim p.stageKey (.ofPromotion p)).2, counters, log }
    have hclaimed : claimed.Attends settings busy (claimed.news.also missed) :=
      (h.claim hb stored unended counters log).unlook (Gates.active?_of_activated claim)
    exact hclaimed.ran hb stored unended hpos marked concluded sub kept

end

end World

end StageGate
