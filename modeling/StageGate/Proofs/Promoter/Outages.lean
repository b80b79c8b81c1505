import StageGate.Proofs.Promoter.LateClaim
import StageGate.Proofs.Promoter.Watchful

/-!
# Dispatch among outages

A look at a promotion may fail. A search for the next promotion of a stage breaks off at the first
look that does: what it has passed by then is out of the line, and nobody is sent for. Without a
failure it comes to what it comes to in a quiet world: `enqueueNext_outages`. The last section does
the same for a resync whose own calls go through.
-/

namespace StageGate

-- ---------------------------------------------------------------------------
-- Counting failures
-- ---------------------------------------------------------------------------

namespace Disturbances

variable {d : Disturbances} {text : String}

def failures (d : Disturbances) : Nat := (d.upcoming .readPromotion).countP (·.outage.isSome)

theorem failures_rest (d : Disturbances) : (d.rest .readPromotion).failures =
    d.failures - if (d.next .readPromotion).outage.isSome then 1 else 0 := by
  unfold failures
  rw [upcoming_rest_self, next_eq_head]
  cases d.upcoming .readPromotion with
  | nil => rfl
  | cons x rest => by_cases hx : x.outage.isSome = true <;> simp [hx]

theorem failures_pos (h : (d.next .readPromotion).outage = some text) : 0 < d.failures := by
  unfold failures
  rw [next_eq_head] at h
  cases hu : d.upcoming .readPromotion with
  | nil => simp [hu] at h
  | cons x rest =>
    have hx : x.outage.isSome = true := by simp_all
    simp [hx]

theorem failures_spared (h : (d.next .readPromotion).outage = none) :
    (d.rest .readPromotion).failures = d.failures := by simp [failures_rest, h]

theorem failures_used (h : (d.next .readPromotion).outage = some text) :
    (d.rest .readPromotion).failures < d.failures := by
  have hpos := failures_pos h
  simp only [failures_rest, h, Option.isSome_some, if_true]
  omega

end Disturbances

-- ---------------------------------------------------------------------------
-- A search that breaks off
-- ---------------------------------------------------------------------------

/-- Some promotions that have ended are gone from the front of the line. -/
def Gate.PassedSome (ended : PromotionKey → Bool) (g g' : Gate) : Prop :=
  g'.holder = g.holder ∧
    ∃ passed, g.waiting.items = passed ++ g'.waiting.items ∧ ∀ e ∈ passed, ended e.key = true

namespace Gate

variable {g g' : Gate} {ended : PromotionKey → Bool} {k : PromotionKey}

theorem PassedSome.stands_of (h : PassedSome ended g g') (hs : g'.Stands k) : g.Stands k := by
  obtain ⟨hholder, passed, hitems, -⟩ := h
  rcases hs with hs | hs
  · exact .inl (hholder ▸ hs)
  · obtain ⟨e, he, hk⟩ := mem_pending.mp hs
    exact .inr (mem_pending.mpr ⟨e, by rw [hitems]; exact List.mem_append_right _ he, hk⟩)

theorem PassedSome.stands (h : PassedSome ended g g') (hs : g.Stands k) (hk : ended k = false) :
    g'.Stands k := by
  obtain ⟨hholder, passed, hitems, hpast⟩ := h
  rcases hs with hs | hs
  · exact .inl (hholder ▸ hs)
  · obtain ⟨e, he, rfl⟩ := mem_pending.mp hs
    rw [hitems] at he
    rcases List.mem_append.mp he with he | he
    · rw [hpast e he] at hk
      cases hk
    · exact .inr (mem_pending.mpr ⟨e, he, rfl⟩)

/-- A gate at which the search broke off is to be looked at again. -/
theorem Attended.passSome {settings : Settings} {tended : PromotionKey → Prop} {due : Due}
    {s : Store} {stage : StageKey} (h : g.Attended settings tended due s stage)
    (hp : PassedSome s.hasEnded g g') :
    g'.Attended settings tended (due.look stage) s stage where
  registered hs := h.registered (hp.stands_of hs)
  awake hh he := h.awake (hp.1 ▸ hh) he
  ending hh he := h.ending (hp.1 ▸ hh) he
  next _ := .inl (.inr rfl)
  placed hq hw hs := (h.placed hq hw hs).imp (fun hst => hp.stands hst
    (by rw [Store.hasEnded_of_stored hq, (Settings.worksOn_iff.mp hw).1])) id

end Gate

namespace World

variable {w u v : World} {stage : StageKey} {k key : PromotionKey} {p : Promotion}

def amid (w : World) (d : Disturbances) : World := { w with disturbances := d }

def calmed (w : World) : World := w.amid {}

theorem calmed_quiet (h : w.Quiet) : w.calmed = w := by
  unfold calmed amid
  rw [← h]

theorem outages_quiet (h : w.Quiet) : w.OnlyOutages := by
  intro s hs
  rw [h] at hs
  cases hs

def Failed (w u : World) : Prop := u.disturbances.failures < w.disturbances.failures

/-- What comes of a search in a line, with `w` before it and `u` after it. -/
inductive Searched (w u : World) (line : List Entry) :
    Except StoreError (Option PromotionKey) → List Entry → Prop where
  | through (spared : u.disturbances.failures = w.disturbances.failures) :
      Searched w u line (.ok ((line.dropWhile (w.store.hasEnded ·.key)).head?.map Entry.key))
        (line.dropWhile (w.store.hasEnded ·.key))
  | brokenOff (failed : u.disturbances.failures < w.disturbances.failures) (e : StoreError)
      (passed left : List Entry) (split : line = passed ++ left)
      (past : ∀ e ∈ passed, w.store.hasEnded e.key = true) : Searched w u line (.error e) left

theorem Searched.cons {e : Entry} {rest left : List Entry}
    {next : Except StoreError (Option PromotionKey)}
    (h : Searched { v with disturbances := d } u rest next left)
    (spared : d.failures = v.disturbances.failures) (past : v.store.hasEnded e.key = true) :
    Searched v u (e :: rest) next left := by
  have hdrop : (e :: rest).dropWhile (v.store.hasEnded ·.key) =
      rest.dropWhile (v.store.hasEnded ·.key) := by simp [past]
  cases h with
  | through same =>
    have hthrough : Searched v u (e :: rest) _ _ := .through (same.trans spared)
    rw [hdrop] at hthrough
    exact hthrough
  | brokenOff failed err passed left split pastAll =>
    refine .brokenOff (spared ▸ failed) err (e :: passed) left (by rw [split]; rfl) fun x hx => ?_
    rcases List.mem_cons.mp hx with rfl | hx
    · exact past
    · exact pastAll x hx

theorem revalidate_outages (h : w.OnlyOutages) (key : PromotionKey) :
    (revalidate key).run w =
      (match (w.disturbances.next .readPromotion).outage with
        | some text => .error (.unavailable text)
        | none => .ok (if w.store.hasEnded key then .stale else .valid),
      { w with disturbances := w.disturbances.rest .readPromotion }) := by
  unfold revalidate
  rw [run_bind, readPromotion_run h]
  unfold seen
  cases (w.disturbances.next .readPromotion).outage with
  | some text => rfl
  | none => cases hp : w.store.promotion? key <;> simp only [Store.hasEnded, hp] <;> rfl

theorem selectFrom_outages (h : w.OnlyOutages) (line : List Entry) :
    Searched w ((Gate.selectFrom revalidate line).run w).2 line
      ((Gate.selectFrom revalidate line).run w).1.1.next
      ((Gate.selectFrom revalidate line).run w).1.2 := by
  induction line generalizing w with
  | nil => exact .through rfl
  | cons e rest ih =>
    let v : World := { w with disturbances := w.disturbances.rest .readPromotion }
    have hv : v.OnlyOutages := h.rest _
    rw [Gate.selectFrom, run_bind, revalidate_outages h]
    cases ho : (w.disturbances.next .readPromotion).outage with
    | some text =>
      exact .brokenOff (Disturbances.failures_used ho) _ [] _ rfl (by simp)
    | none =>
      have hspared : v.disturbances.failures = w.disturbances.failures :=
        Disturbances.failures_spared ho
      cases he : w.store.hasEnded e.key with
      | false =>
        have hdrop : (e :: rest).dropWhile (w.store.hasEnded ·.key) = e :: rest := by simp [he]
        have hthrough : Searched w v (e :: rest) _ _ := .through hspared
        rw [hdrop] at hthrough
        exact hthrough
      | true =>
        have hrest := ih hv
        simp only [if_true, run_bind]
        generalize (Gate.selectFrom revalidate rest).run v = answer at hrest ⊢
        obtain ⟨⟨⟨next, stale⟩, left⟩, u⟩ := answer
        exact hrest.cons hspared he

theorem select_outages (h : w.OnlyOutages) (g : Gate) :
    let answer := (g.select revalidate).run w
    answer.2.disturbances.failures = w.disturbances.failures ∧
        answer.1.1.next = .ok (g.passEnded w.store.hasEnded).next? ∧
        answer.1.2 = g.passEnded w.store.hasEnded ∨
      answer.2.disturbances.failures < w.disturbances.failures ∧
        (∃ e, answer.1.1.next = .error e) ∧ g.PassedSome w.store.hasEnded answer.1.2 := by
  unfold Gate.select Gate.next? Gate.passEnded
  by_cases hh : g.holder.isSome = true
  · simp only [if_pos hh]
    exact .inl ⟨rfl, rfl, rfl⟩
  · have hsearched := selectFrom_outages h g.waiting.items
    simp only [if_neg hh, run_bind]
    generalize (Gate.selectFrom revalidate g.waiting.items).run w = answer at hsearched ⊢
    obtain ⟨⟨⟨next, stale⟩, left⟩, u⟩ := answer
    cases hsearched with
    | through spared => exact .inl ⟨spared, rfl, rfl⟩
    | brokenOff failed e passed left split past =>
      exact .inr ⟨failed, ⟨e, rfl⟩, rfl, passed, split, past⟩

theorem selectAt_outages (h : w.OnlyOutages) (gs : Gates) (stage : StageKey) :
    let answer := (gs.select revalidate stage).run w
    answer.2.disturbances.failures = w.disturbances.failures ∧
        answer.1.1.next = .ok ((gs.passEnded w.store.hasEnded stage).gate stage).next? ∧
        answer.1.2 = gs.passEnded w.store.hasEnded stage ∨
      answer.2.disturbances.failures < w.disturbances.failures ∧
        (∃ e, answer.1.1.next = .error e) ∧
        (gs.gate stage).PassedSome w.store.hasEnded (answer.1.2.gate stage) ∧
        ∀ other, other ≠ stage → answer.1.2.gate other = gs.gate other := by
  rw [Gates.gate_passEnded, if_pos rfl]
  unfold Gates.select Gates.passEnded Gates.onKnown
  cases hg : gs.gate? stage with
  | none => exact .inl ⟨rfl, by rw [Gates.gate_of_gate?_none hg]; rfl, rfl⟩
  | some g =>
    have hsearched := select_outages h g
    rw [Gates.gate_of_gate?_some hg]
    simp only [run_bind]
    generalize (g.select revalidate).run w = answer at hsearched ⊢
    obtain ⟨⟨⟨next, stale⟩, g'⟩, u⟩ := answer
    rcases hsearched with ⟨spared, hnext, rfl⟩ | ⟨failed, herror, hpassed⟩
    · exact .inl ⟨spared, hnext, rfl⟩
    · refine .inr ⟨failed, herror, ?_, fun other ho => ?_⟩
      · show g.PassedSome w.store.hasEnded ((gs.set stage g').gate stage)
        rw [Gates.gate_set, if_pos rfl]
        exact hpassed
      · show (gs.set stage g').gate other = gs.gate other
        rw [Gates.gate_set, if_neg ho]

structure BrokenOff (w : World) (stage : StageKey) (gates : Gates) : Prop where
  here : (w.gates.gate stage).PassedSome w.store.hasEnded (gates.gate stage)
  others : ∀ other, other ≠ stage → gates.gate other = w.gates.gate other

/-- A dispatch does what it does in a quiet world, or it breaks off and sends for nobody. -/
theorem enqueueNext_outages (h : w.OnlyOutages) (stage : StageKey) : ∃ counters log d,
    d.failures = w.disturbances.failures ∧
        ((enqueueNext stage).run w).2 = { w with
          gates := w.gates.passEnded w.store.hasEnded stage
          queue := w.dispatched ((w.gates.passEnded w.store.hasEnded stage).gate stage)
          counters, log, disturbances := d } ∨
      d.failures < w.disturbances.failures ∧ ∃ gates, w.BrokenOff stage gates ∧
        ((enqueueNext stage).run w).2 = { w with gates, counters, log, disturbances := d } := by
  have hlooked := looked_select h w.gates stage
  have hsearched := selectAt_outages h w.gates stage
  unfold enqueueNext
  simp only [run_bind, run_get, run_modify]
  generalize (w.gates.select revalidate stage).run w = answer at hlooked hsearched ⊢
  obtain ⟨⟨⟨next, stale⟩, gates⟩, u⟩ := answer
  obtain ⟨log, hd⟩ := dismiss_run stale stage { u with gates }
  obtain ⟨d, rfl⟩ : ∃ d, u = { w with disturbances := d } := ⟨_, hlooked.same⟩
  simp only [hd]
  rcases hsearched with ⟨spared, hnext, hgates⟩ | ⟨failed, ⟨e, herror⟩, hpassed, hothers⟩
  · obtain rfl : next = _ := hnext
    obtain rfl : gates = _ := hgates
    unfold dispatched
    cases ((w.gates.passEnded w.store.hasEnded stage).gate stage).next? with
    | none => exact ⟨_, log, d, .inl ⟨spared, rfl⟩⟩
    | some key =>
      simp only [run_bind, run_enqueueRateLimited, run_count, run_record]
      exact ⟨_, _, d, .inl ⟨spared, rfl⟩⟩
  · obtain rfl : next = _ := herror
    exact ⟨_, log, d, .inr ⟨failed, gates, ⟨hpassed, hothers⟩, rfl⟩⟩

-- ---------------------------------------------------------------------------
-- What a dispatch does for the stages
-- ---------------------------------------------------------------------------

variable {settings : Settings} {busy : PromotionKey → Prop} {due : Due}

/-- What becomes of a world whose stages are attended, by an action among outages. -/
structure Endures (settings : Settings) (busy : PromotionKey → Prop) (due : Due) (w u : World) :
    Prop where
  attends : u.calmed.Attends settings busy due
  keeps : w.calmed.Keeps u.calmed
  outages : u.OnlyOutages

namespace Endures

theorem refl (h : w.calmed.Attends settings busy due) (ho : w.OnlyOutages) :
    w.Endures settings busy due w := ⟨h, .refl _, ho⟩

theorem trans {due' : Due} (h : w.Endures settings busy due u)
    (h' : u.Endures settings busy due' v) : w.Endures settings busy due' v :=
  ⟨h'.attends, h.keeps.trans h'.keeps, h'.outages⟩

theorem mono {due' : Due} (h : w.Endures settings busy due u) (hd : due.Le due') :
    w.Endures settings busy due' u := ⟨h.attends.mono hd, h.keeps, h.outages⟩

theorem of_quiet (hw : w.Quiet) (hk : w.Keeps u) (h : u.Attends settings busy due) :
    w.Endures settings busy due u := by
  refine ⟨(calmed_quiet h.quiet).symm ▸ h, ?_, outages_quiet h.quiet⟩
  rw [calmed_quiet hw, calmed_quiet h.quiet]
  exact hk

theorem news_eq (h : w.Endures settings busy due u) : u.news = w.news := by
  unfold news
  rw [show u.settings = w.settings from h.keeps.settings,
    show u.store = w.store from h.keeps.store, show u.position = w.position from h.keeps.position]

end Endures

theorem BrokenOff.holds {gates : Gates} (h : w.BrokenOff stage gates) : w.Holds gates := by
  intro other k ha _
  show (gates.gate other).holder = some k
  by_cases ho : other = stage
  · subst ho
    exact h.here.1.trans ha
  · rw [h.others other ho]
    exact ha

theorem Attends.breakOff {gates : Gates} (h : w.Attends settings busy due)
    (hg : w.BrokenOff stage gates) (counters : Counters) (log : List LogRecord) :
    ({ w with gates, counters, log } : World).Attends settings busy (due.look stage) := by
  refine ⟨h.settings_eq, h.quiet, h.opened, h.attended.at_gate (fun other => ?_)
    ((h.attended.gates stage).passSome hg.here) id .inl (fun _ _ => id) (fun _ => .inl)
    fun _ _ => id⟩
  split
  · next ho => rw [ho]
  · next ho => exact hg.others other ho

theorem Attends.enqueueNext_outages (h : w.calmed.Attends settings busy due) (ho : w.OnlyOutages)
    (stage : StageKey) :
    w.Endures settings busy
      ((due.looked stage).also fun other =>
        other = stage ∧ w.Failed ((World.enqueueNext stage).run w).2)
      ((World.enqueueNext stage).run w).2 := by
  have houtages := (calm_enqueueNext ho stage).outages
  obtain ⟨counters, log, d, ⟨spared, hr⟩ | ⟨failed, gates, hg, hr⟩⟩ :=
    World.enqueueNext_outages ho stage
  · rw [hr] at houtages ⊢
    have hkeeps : w.calmed.Keeps { w.calmed with
        gates := w.gates.passEnded w.store.hasEnded stage
        queue := w.dispatched ((w.gates.passEnded w.store.hasEnded stage).gate stage)
        counters, log } := keeps_of (holds_passEnded _) (fed_dispatched w.calmed _) counters log
    exact ⟨(h.sent stage counters log).mono Due.le_also, hkeeps, houtages⟩
  · have hcalmed : w.calmed.BrokenOff stage gates := ⟨hg.here, hg.others⟩
    have hkeeps : w.calmed.Keeps { w.calmed with gates, counters, log } :=
      keeps_of hcalmed.holds (.refl _) counters log
    rw [hr] at houtages ⊢
    exact ⟨(h.breakOff hcalmed counters log).mono (Due.look_le ⟨rfl, failed⟩), hkeeps, houtages⟩

theorem Attends.release_outages (h : w.calmed.Attends settings busy due) (ho : w.OnlyOutages)
    (hk : w.store.hasEnded k = true) (reg : w.store.Registered settings stage k) :
    w.Endures settings busy
      (((due.freed stage k).looked stage).also fun other =>
        other = stage ∧ w.Failed ((World.release stage k).run w).2)
      ((World.release stage k).run w).2 := by
  obtain ⟨counters, log, hr⟩ := release_run stage k w
  let freed : World := { w with gates := (w.gates.conclude stage k).2, counters, log }
  have hfreed : w.Endures settings busy (due.freed stage k) freed :=
    ⟨h.conclude hk reg counters log,
      keeps_of (w := w.calmed) (holds_conclude hk) (.refl _) counters log, ho⟩
  rw [hr]
  exact hfreed.trans (hfreed.attends.enqueueNext_outages ho stage)

-- ---------------------------------------------------------------------------
-- A resync whose own calls go through
-- ---------------------------------------------------------------------------

/-- The action makes no call to the store, so whatever is laid down for calls stays so. -/
def Unexposed (x : Action α) : Prop := ∀ (w : World) d,
  x.run { w with disturbances := d } = ((x.run w).1, { (x.run w).2 with disturbances := d })

namespace Unexposed

theorem noting : Noting @Unexposed where
  pure _ _ _ := rfl
  bind hx hf w d := by
    rw [run_bind, hx w d]
    exact hf _ _ d
  record _ _ _ := rfl
  count _ _ _ := rfl
  enqueue _ _ _ := rfl
  enqueueRateLimited key w d := by rw [run_enqueueRateLimited, run_enqueueRateLimited]

theorem disturbances {x : Action α} (hx : Unexposed x) (w : World) :
    (x.run w).2.disturbances = w.disturbances :=
  congrArg (fun answer => answer.2.disturbances) (hx w w.disturbances)

end Unexposed

/-- If the action succeeds among outages, it does what it does in a quiet world. -/
def Spared (x : ExceptT ε Action α) : Prop := ∀ (w : World) a u, w.OnlyOutages →
  x.run.run w = (.ok a, u) → x.run.run w.calmed = (.ok a, u.calmed) ∧ u.OnlyOutages

namespace Spared

theorem bind {x : ExceptT ε Action α} {f : α → ExceptT ε Action β} (hx : Spared x)
    (hf : ∀ a, Spared (f a)) : Spared (x >>= f) := by
  intro w b v ho hr
  rw [attempt_bind] at hr ⊢
  rcases hxr : x.run.run w with ⟨e | a, u⟩
  · rw [hxr] at hr
    cases hr
  · rw [hxr] at hr
    obtain ⟨hcalmed, hu⟩ := hx w a u ho hxr
    rw [hcalmed]
    exact hf a u b v hu hr

theorem get {f : World → ExceptT ε Action α} (hf : ∀ v, Spared (f v))
    (same : ∀ (v : World) d, f { v with disturbances := d } = f v) :
    Spared (MonadState.get >>= f) := by
  intro w a u ho hr
  have hsame : f w.calmed = f w := same w {}
  rw [attempt_bind, attempt_get] at hr ⊢
  simp only [hsame]
  exact hf w w a u ho hr

theorem lift {x : Action α} (hx : Unexposed x) : Spared (x : ExceptT ε Action α) := by
  intro w a u ho hr
  cases hr
  have hd : (x w).2.disturbances = w.disturbances := hx.disturbances w
  refine ⟨?_, ?_⟩
  · rw [attempt_lift, show w.calmed = { w with disturbances := {} } from rfl, hx]
    rfl
  · unfold OnlyOutages
    rw [hd]
    exact ho

theorem readPromotion (key : PromotionKey) : Spared (ExceptT.mk (World.readPromotion key)) := by
  intro w p? u ho hr
  have hread : (World.readPromotion key).run w = (.ok p?, u) := hr
  rw [readPromotion_run ho] at hread
  unfold seen at hread
  cases hout : (w.disturbances.next .readPromotion).outage with
  | some text =>
    rw [hout] at hread
    cases hread
  | none =>
    rw [hout] at hread
    cases hread
    have hcalm : w.calmed.Quiet := rfl
    exact ⟨readPromotion_quiet hcalm key, ho.rest _⟩

theorem listPromotions : Spared (ExceptT.mk World.listPromotions) := by
  intro w all u ho hr
  have hlist : World.listPromotions.run w = (.ok all, u) := hr
  obtain ⟨outage, hout⟩ := ho.next .listPromotions
  unfold World.listPromotions callStore at hlist
  simp only [StateT.run, hout] at hlist
  cases outage with
  | some text => cases hlist
  | none =>
    cases hlist
    have hcalm : w.calmed.Quiet := rfl
    exact ⟨listPromotions_quiet hcalm, ho.rest _⟩

theorem recovering : Recovering @Spared where
  pure a := lift (x := Pure.pure a) (Unexposed.noting.pure a)
  bind := bind
  get := get
  record h := lift (Unexposed.noting.record h)
  count h := lift (Unexposed.noting.count h)
  readPromotion := readPromotion
  conclude _ _ := lift fun _ _ => rfl

theorem restore : Spared World.restore := by
  have admission (p : Promotion) : Unexposed (onPromotionCreated p) :=
    Unexposed.noting.onPromotionCreated (fun _ _ => rfl) fun _ _ => rfl
  unfold World.restore
  refine get (fun v => ?_) fun _ _ => rfl
  refine bind (recovering.forM recovering.releaseStale _) fun _ => ?_
  refine bind (recovering.initializeQueues listPromotions fun p => lift (admission p)) fun _ => ?_
  exact recovering.pure ()

end Spared

/-- Where the restoration succeeds, it leaves the stages to be looked at, and nothing else. -/
theorem Attends.restore_outages (h : w.calmed.Attends settings busy due) (ho : w.OnlyOutages)
    (hr : World.restore.run.run w = (.ok (), u)) :
    w.Endures settings busy (.sending u.gates.stages) u := by
  obtain ⟨hcalmed, hu⟩ := Spared.restore w () u ho hr
  exact ⟨h.restore.holds hcalmed, (keeps_restore h.quiet).holds hcalmed, hu⟩

def BreaksOff : List StageKey → World → StageKey → Prop
  | [], _, _ => False
  | stage :: rest, w, other =>
    other = stage ∧ w.Failed ((enqueueNext stage).run w).2 ∨
      BreaksOff rest ((enqueueNext stage).run w).2 other

theorem Attends.sendAll_outages {missed : StageKey → Prop} {stages : List StageKey}
    (h : w.calmed.Attends settings busy ((Due.sending stages).also missed)) (ho : w.OnlyOutages) :
    w.Endures settings busy
      ((Due.sending []).also fun stage => missed stage ∨ BreaksOff stages w stage)
      ((sendAll stages).run w).2 := by
  induction stages generalizing w missed with
  | nil => exact (Endures.refl h ho).mono (Due.also_mono .inl)
  | cons stage rest ih =>
    have hfirst := h.enqueueNext_outages ho stage
    let failed (other : StageKey) : Prop :=
      other = stage ∧ w.Failed ((World.enqueueNext stage).run w).2
    have hrest : ((World.enqueueNext stage).run w).2.calmed.Attends settings busy
        ((Due.sending rest).also fun other => missed other ∨ failed other) := by
      refine hfirst.attends.mono ⟨id, ?_, id⟩
      rintro other (⟨hd | hm, hne⟩ | hf)
      · exact .inl ((List.mem_cons.mp hd).resolve_left hne)
      · exact .inr (.inl hm)
      · exact .inr (.inr hf)
    rw [sendAll_cons]
    exact hfirst.trans ((ih hrest hfirst.outages).mono (Due.also_mono or_assoc.mp))

end World

end StageGate
