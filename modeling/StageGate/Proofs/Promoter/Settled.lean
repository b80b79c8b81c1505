import StageGate.Proofs.Promoter.Unstalled
import StageGate.Proofs.Store.Seed

/-!
# How a run over fixtures ends

A promoter that is left alone with the fixtures and only checks specifications brings every
promotion that it works on to one status, whatever the order of its steps:
`Fixtures.settledStatus`. Until then a promotion is open or has that status already, which is what
`Settling` says. Main statement: `settled_fixtures`.
-/

namespace StageGate

/-- The status in which a promotion of the fixtures ends. -/
def Fixtures.settledStatus (settings : Settings) (f : Fixtures) (p : Promotion) : PromotionStatus :=
  if settings.worksOn p then
    match f.stages.reverse.find? (·.key = p.stageKey) with
    | none => { phase := .errored, error := some ("Stage " ++ p.stageKey.display ++ " not found") }
    | some stage =>
      if stage.spec.mechanisms.all Mechanisms.isEmpty then
        { phase := .failed
          error := some ("error promoting Promotion " ++ p.key.display ++ " into Stage " ++
            p.stageKey.display ++ ": " ++
            ("Stage " ++ stage.key.display ++ " has no promotion mechanisms")) }
      else if (stage.availableState? p.spec.state).isNone then
        { phase := .failed
          error := some ("error promoting Promotion " ++ p.key.display ++ " into Stage " ++
            p.stageKey.display ++ ": " ++
            ("state " ++ Text.quoted p.spec.state ++ " is not available to Stage " ++
              stage.key.display)) }
      else { phase := .succeeded }
  else p.status

section
variable {settings : Settings} {f : Fixtures} {p q : Promotion} {stage? stage?' : Option Stage}

theorem Promotion.eq_of_bare (h : q.bare = p.bare) :
    q = { p.stamped q.metadata.version with status := q.status } := by
  obtain ⟨⟨⟩, _, _⟩ := p
  obtain ⟨⟨⟩, _, _⟩ := q
  simp only [bare, stamped, mk.injEq, Metadata.mk.injEq] at h ⊢
  simp [h]

-- ---------------------------------------------------------------------------
-- What a check of specifications comes to
-- ---------------------------------------------------------------------------

/-- A check of specifications looks at no version and at no status. -/
theorem conclusion_congr (hs : stage?.map Stage.unversioned = stage?'.map Stage.unversioned)
    (hb : p.bare = q.bare) : conclusion specCheck stage? p = conclusion specCheck stage?' q := by
  have plain (stage? : Option Stage) (p : Promotion) : conclusion specCheck stage? p =
      conclusion specCheck (stage?.map Stage.unversioned) p.bare := by cases stage? <;> rfl
  rw [plain, plain stage?', hs, hb]

theorem conclusion_settled (h : settings.worksOn p = true) :
    conclusion specCheck (f.stages.reverse.find? (·.key = p.stageKey)) p =
      some (f.settledStatus settings p) := by
  unfold conclusion Fixtures.settledStatus specCheck
  rw [if_pos h]
  cases f.stages.reverse.find? (·.key = p.stageKey) with
  | none => rfl
  | some stage =>
    by_cases hm : stage.spec.mechanisms.all Mechanisms.isEmpty = true
    · simp only [if_pos hm]
      rfl
    · by_cases hs : (stage.availableState? p.spec.state).isNone = true
      · simp only [if_neg hm, if_pos hs]
        rfl
      · simp only [if_neg hm, if_neg hs]
        rfl

end

-- ---------------------------------------------------------------------------
-- On the way
-- ---------------------------------------------------------------------------

/-- The promotions of the fixtures are stored, and no others. Each is settled, or it is open and is
worked on. -/
structure Settling (settings : Settings) (f : Fixtures) (s : Store) : Prop where
  stage : ∀ key, (s.stage? key).map Stage.unversioned =
    (f.stages.reverse.find? (·.key = key)).map Stage.unversioned
  stored : ∀ p ∈ f.promotions, ∃ q, s.promotion? p.key = some q ∧ q.bare = p.bare ∧
    (q.status = f.settledStatus settings p ∨ settings.worksOn p = true ∧ q.isTerminal = false)
  listed : ∀ {k q}, s.promotion? k = some q → ∃ p ∈ f.promotions, p.key = k

namespace Settling

variable {settings : Settings} {f : Fixtures} {s s' : Store} {p q : Promotion} {w u : World}
  {key : PromotionKey} {outcome : Except ReconcileError Outcome}

theorem of_holds (h : s.Holds f.stages.reverse f.promotions.reverse) : Settling settings f s where
  stage := h.stage
  stored p hp := by
    obtain ⟨version, hv⟩ := h.stored p (List.mem_reverse.mpr hp)
    refine ⟨_, hv, rfl, ?_⟩
    by_cases hw : settings.worksOn p = true
    · exact .inr ⟨hw, (Settings.worksOn_iff.mp hw).1⟩
    · exact .inl (by rw [Fixtures.settledStatus, if_neg hw]; rfl)
  listed hq := by
    obtain ⟨p, hp, hk⟩ := h.listed hq
    exact ⟨p, List.mem_reverse.mp hp, hk⟩

theorem worksOn_of_open (h : Settling settings f s) (hp : p ∈ f.promotions)
    (hq : s.promotion? p.key = some q) (ht : q.isTerminal = false)
    (hr : settings.isResponsibleFor q.metadata = true) :
    settings.worksOn p = true ∧ q.bare = p.bare := by
  obtain ⟨q', hq', hb, hs⟩ := h.stored p hp
  obtain rfl := Option.some.inj (hq.symm.trans hq')
  refine ⟨?_, hb⟩
  rcases hs with hs | hs
  · by_cases hw : settings.worksOn p = true
    · exact hw
    · rw [Fixtures.settledStatus, if_neg hw] at hs
      refine Settings.worksOn_iff.mpr ⟨?_, by rw [← settings.responsible_of_bare hb]; exact hr⟩
      rw [Promotion.isTerminal, Promotion.phase, ← hs]
      exact ht
  · exact hs.1

theorem conclusion_eq (h : Settling settings f s) (hw : settings.worksOn p = true)
    (hb : q.bare = p.bare) :
    conclusion specCheck (s.stage? q.stageKey) q = some (f.settledStatus settings p) := by
  rw [Promotion.stageKey_of_bare hb, conclusion_congr (h.stage p.stageKey) hb]
  exact conclusion_settled hw

theorem conclude (h : Settling settings f s) {running : Promotion} {status : PromotionStatus}
    (hq : s.promotion? q.key = some q) (ht : q.isTerminal = false)
    (hr : settings.isResponsibleFor q.metadata = true) (hb : running.bare = q.bare)
    (hend : conclusion specCheck (s.stage? running.stageKey) running = some status)
    (hstages : s'.stages = s.stages) {new : Promotion} (hnew : new.bare = q.bare)
    (hstatus : new.status = status)
    (hs : ∀ j, s'.promotion? j = if j = q.key then some new else s.promotion? j) :
    Settling settings f s' where
  stage key := by
    rw [Store.stage?, hstages]
    exact h.stage key
  stored p hp := by
    rw [hs]
    by_cases hk : p.key = q.key
    · obtain ⟨hw, hqb⟩ := h.worksOn_of_open hp (hk ▸ hq) ht hr
      refine ⟨new, if_pos hk, hnew.trans hqb, .inl ?_⟩
      rw [h.conclusion_eq hw (hb.trans hqb)] at hend
      rw [hstatus]
      exact (Option.some.inj hend).symm
    · rw [if_neg hk]
      exact h.stored p hp
  listed {k r} hr := by
    rw [hs] at hr
    split at hr
    · next hk => exact h.listed (hk ▸ hq)
    · exact h.listed hr

open World in
theorem tried (h : Settling settings f w.store) {busy : PromotionKey → Prop} {due : Due}
    (ha : w.Attends settings busy due) (hb : busy key) (ht : Tried specCheck key w outcome u) :
    Settling settings f u.store := by
  have chronicle := ha.attended.chronicle
  rcases keeps_tried ha.quiet ht with
    hk | ⟨p, running, s, s', counters, log, stored, unended, -, marked, concluded, rfl⟩
  · rw [hk.store]
    exact h
  · obtain rfl := chronicle.key_eq stored
    obtain ⟨stage, reg⟩ := ha.attended.expected (.inr hb)
    obtain ⟨-, hr⟩ := chronicle.spec_of_registered reg stored
    obtain ⟨hstored, hbare, hphase, hstages⟩ := marked.spec stored unended
    have hkey := Promotion.key_of_bare hbare
    have hs := chronicle.next (marked.lawful chronicle stored unended)
    have hstage : s.stage? running.stageKey = w.store.stage? running.stageKey := by
      rw [Store.stage?, hstages, Store.stage?]
    cases concluded with
    | ended hend hw =>
      obtain ⟨⟨old, hold, hnew⟩, hstatus, hsame, hget⟩ := hs.updateStatus_spec hw
      obtain rfl := Option.some.inj (hstored.symm.trans hold)
      refine h.conclude stored unended hr hbare (hstage ▸ hend) (hsame.trans hstages)
        (hnew.trans hbare) hstatus fun j => ?_
      rw [hget, hkey]
      split
      · rfl
      · next hj => exact marked.others chronicle hj
    | unfinished hopen hagain =>
      -- A check of specifications leaves nothing unfinished.
      obtain ⟨p', hp', hk⟩ := h.listed stored
      obtain ⟨hw, hb'⟩ := h.worksOn_of_open hp' (hk ▸ stored) unended hr
      rw [hstage, h.conclusion_eq hw (hbare.trans hb')] at hopen
      cases hopen

theorem step {y y' : System} (h : Settling settings f y.world.store) (ha : y.Attends settings)
    (hs : System.Step (.alone specCheck) y y') : Settling settings f y'.world.store := by
  cases hs with
  | write ask allowed => exact allowed.elim
  | deliver received =>
    have hk := ha.attends.keeps_delivered received
    obtain ⟨position, -, rfl⟩ := System.receive_ok received
    rw [hk.store]
    exact h
  | take taken =>
    rw [World.run_takeKey] at taken
    cases taken
    exact h
  | attempt key mechanics employed job tried =>
    obtain rfl : mechanics = specCheck := employed
    have ht := World.reconcile_quiet ha.attends.quiet
      (fun p (hp : _ = some p) => ha.attends.attended.chronicle.key_eq (k := key) hp) specCheck
    rw [tried] at ht
    exact h.tried ha.attends (by rw [job, busy_middle]; exact .inl ⟨rfl, trivial⟩) ht
  | report key outcome job =>
    obtain ⟨counters, log, hr⟩ := World.onOutcome_run key outcome y.world
    rw [hr]
    exact h
  | giveBack key job => exact h
  | elapse now onward => exact h
  | retime delayed same => exact h

theorem reachable {y y' : System} (h : Settling settings f y.world.store) (ha : y.Attends settings)
    (hr : System.Reachable (.alone specCheck) y y') : Settling settings f y'.world.store := by
  induction hr with
  | start => exact h
  | step reached step ih => exact ih.step (ha.reachable (fun _ _ => False.elim) reached) step

end Settling

-- ---------------------------------------------------------------------------
-- The start
-- ---------------------------------------------------------------------------

theorem World.initializeQueues_quiet {w : World} (h : w.Quiet) {promotions : List Promotion}
    (hp : toAdmit w.settings w.store.promotionList = promotions) :
    let u := ((promotions.forM onPromotionCreated).run w).2
    initializeQueues.run.run w = (.ok promotions.length,
      { u with log := .queuesInitialized promotions.length u.gates.stages.length :: u.log }) := by
  have hlist : (ExceptT.mk listPromotions).run.run w = (.ok w.store.promotionList, w) :=
    listPromotions_quiet h
  have hforM (ps : List Promotion) (v : World) :
      (ps.forM fun p => (onPromotionCreated p : ExceptT StoreError Action Unit)).run.run v =
        (.ok (), ((ps.forM onPromotionCreated).run v).2) := by
    induction ps generalizing v with
    | nil => rfl
    | cons p ps ih =>
      rw [List.forM, attempt_bind, attempt_lift]
      exact ih _
  unfold initializeQueues
  rw [attempt_bind, hlist]
  simp only
  rw [attempt_bind, attempt_get]
  simp only [hp]
  rw [attempt_bind, hforM]
  rfl

theorem Run.open?_ok {r : Run} {w : World} {count : Nat} (h : World.initializeQueues.run
      { r.world with position := r.world.store.feed.front } = (.ok count, w)) :
    r.open? = .ok
      { r with world := ((World.record (.general .controllerStarted)).run w).2 } := by
  unfold Run.open?
  simp only [h]

def Run.openedWith (r : Run) (promotions : List Promotion) : Run :=
  let u := ((promotions.forM World.onPromotionCreated).run
    { r.world with position := r.world.store.feed.front }).2
  { r with world := { u with
    log := .general .controllerStarted ::
      .queuesInitialized promotions.length u.gates.stages.length :: u.log } }

theorem Run.open?_quiet {r : Run} {promotions : List Promotion} (h : r.world.Quiet)
    (hp : World.toAdmit r.world.settings r.world.store.promotionList = promotions) :
    r.open? = .ok (r.openedWith promotions) :=
  Run.open?_ok (World.initializeQueues_quiet
    (w := { r.world with position := r.world.store.feed.front }) h hp)

/-- A promoter that is started on a store admits what is there, and nothing is due. -/
theorem Run.open?_attends (settings : Settings) {store : Store} (hc : store.Chronicle) :
    ∃ r, ({ world := World.start settings store } : Run).open? = .ok r ∧ r.world.store = store ∧
      System.Attends settings ⟨r.world, []⟩ := by
  let w : World := { World.start settings store with position := store.feed.front }
  have hstart := World.attends_start settings hc store.feed.front
  have hadmits := hstart.admits fun stage k (hh : _ = some k) => by cases hh
  obtain ⟨count, u, hrun, v, log, rfl, hv, hk⟩ := World.initializeQueues_run (w := w) rfl
    (A := fun list u => u.Admits settings (fun _ => False)
      ⟨fun _ _ => False, fun _ => False, fun _ => True⟩ list ∧ w.Keeps u)
    ⟨hadmits, .refl w⟩ fun p rest u hu => ⟨hu.1.next, hu.2.trans (World.keeps_onPromotionCreated p)⟩
  refine ⟨⟨{ v with log := .general .controllerStarted :: log }, {}⟩, ?_, hk.store, ?_⟩
  · exact Run.open?_ok (r := { world := World.start settings store }) hrun
  · obtain ⟨settings_eq, quiet, opened, attended⟩ := hv.attends
    refine ⟨⟨hk.sound (WorkQueue.sound_start settings.backoff),
      fun _ hk => (List.not_mem_nil hk).elim, List.nodup_nil⟩, ?_, settings_eq, quiet, opened, ?_⟩
    · show v.position ≤ v.store.feed.front
      rw [hk.position, hk.store]
      exact Nat.le_refl _
    · refine (attended.narrow (fun _ _ => False.elim) (fun _ => False.elim) ?_).retend
        (fun hk => .inl ?_) fun hk => .inl ?_
      · rintro _ _ - - ⟨_, hp, -⟩
        cases hp
      · refine hk.imp_right ?_
        rintro ⟨_, hj, -⟩
        cases hj
      · exact hk.imp id False.elim

/-- A run over fixtures with checks of specifications. The store takes the fixtures, the promoter
starts, and in every quiescent state that is then reached, in whatever order the steps come,
exactly the promotions of the fixtures are stored, each with the status that its specification
leads to. -/
theorem settled_fixtures (settings : Settings) (f : Fixtures) {store : Store}
    (seeded : ({ defaultNamespace := settings.argocdNamespace } : Store).seed f = .ok store) :
    ∃ r, ({ world := World.start settings store } : Run).open? = .ok r ∧
      ∀ s, System.Reachable (.alone specCheck) ⟨r.world, []⟩ s → s.Quiescent →
        (∀ p ∈ f.promotions, ∃ version, s.world.store.promotion? p.key =
          some { p.stamped version with status := f.settledStatus settings p }) ∧
        ∀ q ∈ s.world.store.promotionList, ∃ p ∈ f.promotions, p.key = q.key := by
  have hseeded := Store.seed_ok seeded
  obtain ⟨r, hopen, hstore, hattends⟩ := Run.open?_attends settings hseeded.chronicle
  refine ⟨r, hopen, fun s hr hq => ?_⟩
  have hsettling : Settling settings f r.world.store := by
    rw [hstore]
    exact .of_holds hseeded
  have hsettled := hsettling.reachable hattends hr
  have hs := hattends.reachable (fun _ _ => False.elim) hr
  refine ⟨fun p hp => ?_, fun q hq => ?_⟩
  · obtain ⟨q, hk, hb, hstatus⟩ := hsettled.stored p hp
    refine ⟨q.metadata.version, ?_⟩
    have hstatus : q.status = f.settledStatus settings p := by
      refine hstatus.resolve_right fun ⟨hw, ht⟩ => ?_
      have hresp := (Settings.worksOn_iff.mp hw).2
      rw [← settings.responsible_of_bare hb] at hresp
      rw [(hs.settled hq).1 p.key q hk hresp] at ht
      cases ht
    rw [← hstatus, ← Promotion.eq_of_bare hb]
    exact hk
  · obtain ⟨k, hk⟩ := Store.mem_promotionList_iff.mp hq
    obtain ⟨p, hp, rfl⟩ := hsettled.listed hk
    exact ⟨p, hp, (hs.attends.attended.chronicle.key_eq hk).symm⟩

namespace Fixtures.Sample

def settings : Settings := { shard := some "east" }

def metadata (name : String) : Metadata where
  ns := "ns"
  name := name
  created := ⟨0, 0⟩
  labels := .ofList [("kargo.akuity.io/shard", "east")]

/-- The last stage of a name counts: `test` can be promoted into, `bare` cannot. The promotion `f`
is left to another shard. -/
def fixtures : Fixtures where
  stages := [
    { metadata := metadata "test" },
    { metadata := metadata "test"
      spec := { mechanisms := some { gitRepoUpdates := [{ repoURL := "repo" }] } }
      status := { availableStates := [{ id := "v1" }] } },
    { metadata := metadata "bare", spec := { mechanisms := some {} } }]
  promotions := [
    { metadata := metadata "a", spec := ⟨"test", "v1"⟩, status := { phase := .running } },
    { metadata := metadata "b", spec := ⟨"test", "v1"⟩
      status := { phase := .failed, error := some "no" } },
    { metadata := metadata "c", spec := ⟨"test", "v2"⟩, status := { phase := .pending } },
    { metadata := metadata "d", spec := ⟨"bare", "v1"⟩, status := { phase := .pending } },
    { metadata := metadata "e", spec := ⟨"prod", "v1"⟩, status := { phase := .pending } },
    { metadata := { metadata "f" with labels := .empty }, spec := ⟨"test", "v1"⟩
      status := { phase := .pending } }]

def store : Store :=
  match ({ defaultNamespace := "argocd" } : Store).seed fixtures with
  | .ok s => s
  | .error _ => { defaultNamespace := "argocd" }

def start : Run := { world := World.start settings store }

def unended : List Promotion := store.promotionList.filter settings.worksOn

def opened : Run := start.openedWith unended

theorem toAdmit_start :
    World.toAdmit start.world.settings start.world.store.promotionList = unended :=
  List.mergeSort_of_pairwise (by decide +kernel)

theorem open?_start : start.open? = .ok opened := by
  have hquiet : start.world.Quiet := rfl
  rw [opened]
  exact Run.open?_quiet hquiet toAdmit_start

def Ends (s : System) (m : Metadata) (spec : PromotionSpec) (status : PromotionStatus) : Prop :=
  ∃ version, s.world.store.promotion? ⟨m.ns, m.name⟩ = some ⟨{ m with version }, spec, status⟩

structure AllEnd (s : System) : Prop where
  promoted : Ends s (metadata "a") ⟨"test", "v1"⟩ { phase := .succeeded, error := none }
  ended : Ends s (metadata "b") ⟨"test", "v1"⟩ { phase := .failed, error := some "no" }
  unavailable : Ends s (metadata "c") ⟨"test", "v2"⟩
    { phase := .failed
      error := some ("error promoting Promotion ns/c into Stage ns/test: " ++
        "state \"v2\" is not available to Stage ns/test") }
  unequipped : Ends s (metadata "d") ⟨"bare", "v1"⟩
    { phase := .failed
      error := some ("error promoting Promotion ns/d into Stage ns/bare: " ++
        "Stage ns/bare has no promotion mechanisms") }
  stageless : Ends s (metadata "e") ⟨"prod", "v1"⟩
    { phase := .errored, error := some "Stage ns/prod not found" }
  foreign : Ends s { metadata "f" with labels := .empty } ⟨"test", "v1"⟩
    { phase := .pending, error := none }

theorem allEnd_of_settled {s : System} (h : ∀ p ∈ fixtures.promotions, ∃ version,
    s.world.store.promotion? p.key =
      some { p.stamped version with status := fixtures.settledStatus settings p }) :
    AllEnd s := by
  have ends {m : Metadata} {spec : PromotionSpec} {status : PromotionStatus}
      (initial : PromotionStatus) (hp : ⟨m, spec, initial⟩ ∈ fixtures.promotions)
      (hs : fixtures.settledStatus settings ⟨m, spec, initial⟩ = status) :
      Ends s m spec status := by
    subst hs
    exact h _ hp
  constructor
  case promoted =>
    exact ends { phase := .running } (by simp [fixtures]) (by decide +kernel)
  case ended =>
    exact ends { phase := .failed, error := some "no" } (by simp [fixtures]) (by decide +kernel)
  all_goals exact ends { phase := .pending } (by simp [fixtures]) (by decide +kernel)

theorem settled_fixtures_sample :
    ({ defaultNamespace := "argocd" } : Store).seed fixtures = .ok store ∧
      ∃ s, System.Reachable (.alone specCheck) ⟨opened.world, []⟩ s ∧ s.Quiescent ∧ AllEnd s := by
  have hseed : ({ defaultNamespace := "argocd" } : Store).seed fixtures = .ok store := rfl
  obtain ⟨r, hopen, hr⟩ := settled_fixtures settings fixtures hseed
  obtain rfl : opened = r := Except.ok.inj (open?_start.symm.trans hopen)
  have hstart : System.Reachable (.alone specCheck) ⟨opened.world, []⟩ ⟨opened.world, []⟩ := .start
  have hreached := Run.reaches_runUntil (B := (· = {})) (r := opened)
    (fun _ hb => by subst hb; rfl) (fun _ hb _ _ => by subst hb; rfl) (fun _ => false) 40
    (Run.playbook_open open?_start) hstart
  have hquiet : System.Quiescent ⟨(opened.runUntil (fun _ => false) 40).world, []⟩ :=
    ⟨by decide +kernel, by decide +kernel⟩
  have hsettled := (hr _ hreached hquiet).1
  exact ⟨hseed, _, hreached, hquiet, allEnd_of_settled hsettled⟩

end Fixtures.Sample

end StageGate
