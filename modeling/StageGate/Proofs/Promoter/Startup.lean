import Mathlib.Data.List.Nodup
import StageGate.Proofs.Gates.Precedence
import StageGate.Proofs.Promoter.Actions
import StageGate.Proofs.Store.RunningAgainst

/-!
# The lines at the start

At the start the promotions that are there are admitted one after the other, those at work first and
then the oldest. The first of a stage gets it and is sent to the work queue, and the others come into
its line, where age alone counts. Main statement: `lines_at_start`, what the gates and the queue are
like afterwards, stage by stage.
-/

namespace StageGate

variable {p q : Promotion} {ps : List Promotion}

namespace Promotion

/-- The older of two promotions, or of two equally old ones the one with the lesser key. -/
def OlderThan (p q : Promotion) : Prop := (Entry.ofPromotion p).Precedes (.ofPromotion q)

/-- Promotions at work come before the others, and of two of a kind the older one. -/
def ComesBefore (p q : Promotion) : Prop :=
  (p.phase = .running ∧ q.phase ≠ .running) ∨
    ((p.phase = .running ↔ q.phase = .running) ∧ p.OlderThan q)

instance (p q : Promotion) : Decidable (p.ComesBefore q) :=
  inferInstanceAs (Decidable (_ ∨ _ ∧ Entry.Precedes _ _))

end Promotion

namespace World

instance : Std.TransCmp admissionOrder :=
  inferInstanceAs (Std.TransCmp (compareLex
    (fun a b => compareOn (fun p : Promotion => (p.phase = .running : Bool)) b a)
    (compareLex (compareOn fun p : Promotion => p.metadata.created) (compareOn Promotion.key))))

theorem admissionOrder_lt_iff : admissionOrder p q = .lt ↔ p.ComesBefore q := by
  have hfirst : compare false true = .lt := rfl
  have hlast : compare true false = .gt := rfl
  unfold admissionOrder Promotion.ComesBefore Promotion.OlderThan Entry.Precedes
  by_cases hp : p.phase = .running <;> by_cases hq : q.phase = .running <;>
    simp [hp, hq, hfirst, hlast]

theorem key_eq_of_admissionOrder (h : admissionOrder p q = .eq) : p.key = q.key := by
  obtain ⟨-, h⟩ := Ordering.then_eq_eq.mp h
  exact Entry.key_eq_of_oldestFirst h

theorem toAdmit_distinct (settings : Settings) {all : List Promotion}
    (distinct : (all.map Promotion.key).Nodup) :
    ((toAdmit settings all).map Promotion.key).Nodup := by
  refine ((List.mergeSort_perm _ _).map Promotion.key).nodup_iff.mpr ?_
  exact distinct.sublist (List.filter_sublist.map Promotion.key)

theorem toAdmit_rising (settings : Settings) {all : List Promotion}
    (distinct : (all.map Promotion.key).Nodup) :
    (toAdmit settings all).Pairwise Promotion.ComesBefore := by
  have hsorted : (toAdmit settings all).Pairwise fun a b => admissionOrder a b ≠ .gt := by
    refine (List.pairwise_mergeSort ?_ ?_ _).imp (by simp)
    · simp only [bne_iff_ne, ne_eq, Ordering.ne_gt_iff_isLE]
      exact fun a b c => Std.TransCmp.isLE_trans
    · intro a b
      have hswap : admissionOrder b a = (admissionOrder a b).swap := Std.OrientedCmp.eq_swap
      rw [hswap]
      cases admissionOrder a b <;> rfl
  have hkeys : (toAdmit settings all).Pairwise fun a b => a.key ≠ b.key :=
    List.pairwise_map.mp (toAdmit_distinct settings distinct)
  refine (hkeys.and hsorted).imp ?_
  rintro a b ⟨hne, hle⟩
  rw [← admissionOrder_lt_iff]
  cases hab : admissionOrder a b with
  | lt => rfl
  | eq => exact absurd (key_eq_of_admissionOrder hab) hne
  | gt => exact absurd hab hle

end World

-- ---------------------------------------------------------------------------
-- One gate
-- ---------------------------------------------------------------------------

theorem Backlog.insertBehind_map {α β : Type} (order : β → β → Ordering) (f : α → β) (item : α)
    (items : List α) : insertBehind order (f item) (items.map f) =
      (insertBehind (fun a b => order (f a) (f b)) item items).map f := by
  induction items with
  | nil => rfl
  | cons queued rest ih =>
    simp only [List.map_cons, insertBehind, ih]
    split <;> rfl

theorem Entry.rising_insertBehind {e : Entry} {line : List Entry}
    (rising : line.Pairwise Precedes) (new : ∀ x ∈ line, x.key ≠ e.key) :
    (Backlog.insertBehind oldestFirst e line).Pairwise Precedes := by
  induction line with
  | nil => simp [Backlog.insertBehind]
  | cons queued rest ih =>
    obtain ⟨hqueued, hrest⟩ := List.pairwise_cons.mp rising
    simp only [Backlog.insertBehind]
    split
    · next hgt =>
      have hfront : e.Precedes queued := Std.OrientedCmp.lt_of_gt hgt
      refine List.pairwise_cons.mpr ⟨fun x hx => ?_, rising⟩
      rcases List.mem_cons.mp hx with rfl | hx
      · exact hfront
      · exact hfront.trans (hqueued x hx)
    · next hgt =>
      have hbehind : queued.Precedes e :=
        (precedes_or_precedes (new queued List.mem_cons_self)).resolve_right fun h =>
          hgt (Std.OrientedCmp.gt_of_lt h)
      refine List.pairwise_cons.mpr ⟨fun x hx => ?_, ih hrest fun x hx =>
        new x (List.mem_cons_of_mem _ hx)⟩
      rcases Backlog.mem_insertBehind.mp hx with rfl | hx
      · exact hbehind
      · exact hqueued x hx

/-- The gate of a stage to which these promotions were admitted, one after the other: there is none
before the first, which holds it, and the others are in line by age. -/
inductive Manned : List Promotion → Option Gate → Prop where
  | nobody : Manned [] none
  | held (first : Promotion) (rest line : List Promotion) (same : line.Perm rest)
      (rising : line.Pairwise Promotion.OlderThan) :
      Manned (first :: rest) (some ⟨some first.key, ⟨line.map .ofPromotion⟩⟩)

namespace Manned

variable {g? : Option Gate}

theorem holder (h : Manned ps g?) : (g?.getD {}).holder = ps.head?.map Promotion.key := by
  cases h <;> rfl

theorem known_iff (h : Manned ps g?) : g?.isSome ↔ ps ≠ [] := by
  cases h <;> simp

theorem lined (h : Manned ps g?) (order : ps.Pairwise Promotion.ComesBefore) (known : g?.isSome) :
    ∃ (first : Promotion) (line : List Promotion), (first :: line).Perm ps ∧
      (∀ q ∈ line, first.ComesBefore q) ∧ line.Pairwise Promotion.OlderThan ∧
      (g?.getD {}).holder = some first.key ∧
      (g?.getD {}).pending = line.map Promotion.key := by
  cases h with
  | nobody => cases known
  | held first rest line same rising =>
    have hfirst := (List.pairwise_cons.mp order).1
    exact ⟨first, line, same.cons first, fun q hq => hfirst q (same.mem_iff.mp hq), rising, rfl,
      List.map_map⟩

theorem enroll (h : Manned ps g?) (new : p.key ∉ ps.map Promotion.key) :
    Manned (ps ++ [p]) (some ((g?.getD {}).enroll Entry.oldestFirst (.ofPromotion p)).2) ∧
      ((g?.getD {}).enroll Entry.oldestFirst (.ofPromotion p)).1 =
        if ps = [] then .becameActive else .queued := by
  cases h with
  | nobody =>
    rw [Option.getD_none, Gate.enroll_of_idle rfl]
    exact ⟨.held p [] [] (.refl _) .nil, rfl⟩
  | held first rest line same rising =>
    have hfirst : first.key ≠ p.key := fun h => new (by simp [h])
    have hnew : ∀ x ∈ line.map Entry.ofPromotion, x.key ≠ (Entry.ofPromotion p).key := by
      intro x hx hk
      obtain ⟨q, hq, rfl⟩ := List.mem_map.mp hx
      exact new (List.mem_map.mpr ⟨q, List.mem_cons_of_mem _ (same.mem_iff.mp hq), hk⟩)
    have habsent : Backlog.contains (Entry.discipline Entry.oldestFirst)
        ⟨line.map .ofPromotion⟩ (.ofPromotion p) = false := by
      simpa [Backlog.contains, Entry.discipline] using hnew
    let joined := Backlog.insertBehind
      (fun a b => Entry.oldestFirst (.ofPromotion a) (.ofPromotion b)) p line
    have hjoined : Backlog.insertBehind Entry.oldestFirst (.ofPromotion p)
        (line.map .ofPromotion) = joined.map .ofPromotion := Backlog.insertBehind_map ..
    have hpush : (⟨some first.key, ⟨line.map .ofPromotion⟩⟩ : Gate).push Entry.oldestFirst
        (.ofPromotion p) = ⟨some first.key, ⟨joined.map .ofPromotion⟩⟩ := by
      simp only [Gate.push, Backlog.push, habsent, Bool.false_eq_true, if_false]
      exact congrArg (fun line => (⟨some first.key, ⟨line⟩⟩ : Gate)) hjoined
    have hrising : joined.Pairwise Promotion.OlderThan := by
      have h := Entry.rising_insertBehind (List.pairwise_map.mpr rising) hnew
      rw [hjoined] at h
      have hmapped : joined.Pairwise fun a b => (Entry.ofPromotion a).Precedes (.ofPromotion b) :=
        List.pairwise_map.mp h
      exact hmapped
    rw [Option.getD_some, Gate.enroll_of_other rfl hfirst, hpush]
    refine ⟨.held first (rest ++ [p]) joined ?_ hrising, rfl⟩
    exact ((Backlog.perm_insertBehind _ p line).trans (same.cons p)).trans
      (List.perm_append_singleton p rest).symm

end Manned

-- ---------------------------------------------------------------------------
-- One admission after the other
-- ---------------------------------------------------------------------------

namespace World

variable {settings : Settings} {done : List Promotion} {u : World} {stage : StageKey}

def forStage (stage : StageKey) (ps : List Promotion) : List Promotion :=
  ps.filter (·.stageKey = stage)

def holds (u : World) (p : Promotion) : Bool := u.gates.active? p.stageKey = some p.key

/-- A promoter that has admitted some promotions, and has done nothing else. -/
structure Opened (settings : Settings) (done : List Promotion) (u : World) : Prop where
  settings : u.settings = settings
  order : u.gates.order = Entry.oldestFirst
  gate : ∀ stage, Manned (forStage stage done) (u.gates.gate? stage)
  ready : u.queue.ready = (done.filter u.holds).map Promotion.key
  closed : u.queue.closed = false
  held : u.queue.held = []
  dirty : u.queue.dirty ⊆ done.map Promotion.key

theorem opened_start (settings : Settings) (s : Store) :
    Opened settings [] (World.start settings s) :=
  ⟨rfl, rfl, fun _ => .nobody, rfl, rfl, rfl, List.nil_subset _⟩

theorem forStage_concat (stage : StageKey) (ps : List Promotion) (p : Promotion) :
    forStage stage (ps ++ [p]) = forStage stage ps ++ if p.stageKey = stage then [p] else [] := by
  unfold forStage
  rw [List.filter_append, List.filter_singleton]
  split <;> simp_all

namespace Opened

theorem active? (h : Opened settings done u) (stage : StageKey) :
    u.gates.active? stage = (forStage stage done).head?.map Promotion.key := (h.gate stage).holder

/-- Whoever was admitted has a holder at its stage, so a further admission changes nothing for it. -/
theorem holds_enroll (h : Opened settings done u) (hq : q ∈ done) (e : Entry) (stage : StageKey) :
    ((u.gates.enroll stage e).2.active? q.stageKey = some q.key : Bool) = u.holds q := by
  have hmem : q ∈ forStage q.stageKey done := List.mem_filter.mpr ⟨hq, by simp⟩
  obtain ⟨first, hfirst⟩ : ∃ first, u.gates.active? q.stageKey = some first := by
    rw [h.active?]
    cases hmine : forStage q.stageKey done with
    | nil => rw [hmine] at hmem; cases hmem
    | cons first rest => exact ⟨first.key, rfl⟩
  unfold holds
  rw [Gates.active?_enroll]
  split
  · next hs => rw [← hs, hfirst]; rfl
  · rfl

theorem gate_enroll (h : Opened settings done u)
    (new : p.key ∉ (forStage p.stageKey done).map Promotion.key) (stage : StageKey) :
    Manned (forStage stage (done ++ [p]))
      ((u.gates.enroll p.stageKey (.ofPromotion p)).2.gate? stage) := by
  have hmanned := ((h.gate p.stageKey).enroll new).1
  rw [forStage_concat]
  show Manned _ ((u.gates.set p.stageKey
    ((u.gates.gate p.stageKey).enroll u.gates.order (.ofPromotion p)).2).gate? stage)
  rw [Gates.gate?_set, h.order]
  by_cases hs : stage = p.stageKey
  · subst hs
    rw [if_pos rfl, if_pos rfl]
    exact hmanned
  · rw [if_neg hs, if_neg (Ne.symm hs), List.append_nil]
    exact h.gate stage

theorem admitted_enroll (h : Opened settings done u) (new : p.key ∉ done.map Promotion.key) :
    u.admitted p.key (u.gates.enroll p.stageKey (.ofPromotion p)).1 =
      if (u.gates.enroll p.stageKey (.ofPromotion p)).2.active? p.stageKey = some p.key then
        { u.queue with dirty := p.key :: u.queue.dirty, ready := u.queue.ready ++ [p.key] }
      else u.queue := by
  have hmine : p.key ∉ (forStage p.stageKey done).map Promotion.key := fun hk =>
    new ((List.filter_sublist.map Promotion.key).subset hk)
  have hanswer : (u.gates.enroll p.stageKey (.ofPromotion p)).1 =
      if forStage p.stageKey done = [] then .becameActive else .queued := by
    have hgate := ((h.gate p.stageKey).enroll hmine).2
    rw [← h.order] at hgate
    exact hgate
  rw [hanswer, Gates.active?_enroll, if_pos rfl, h.active?]
  cases hline : forStage p.stageKey done with
  | nil =>
    have hdirty : u.queue.dirty.contains p.key = false := by
      simpa using fun hk => new (h.dirty hk)
    show u.queue.add p.key = if some p.key = some p.key then _ else _
    simp only [WorkQueue.add, h.closed, h.held, hdirty, Bool.or_self, Bool.false_eq_true,
      List.contains_nil, if_false, if_true]
  | cons first rest =>
    have hfirst : first.key ≠ p.key := fun hk => hmine (by simp [hline, hk])
    show u.queue = if some first.key = some p.key then _ else _
    rw [if_neg fun hk => hfirst (Option.some.inj hk)]

theorem arrive (h : Opened settings done u) (hp : settings.worksOn p = true)
    (new : p.key ∉ done.map Promotion.key) :
    Opened settings (done ++ [p]) ((onPromotionCreated p).run u).2 := by
  obtain ⟨counters, log, hr⟩ := onPromotionCreated_run (h.settings ▸ hp)
  rw [hr, h.admitted_enroll new]
  have hready : (done ++ [p]).filter (fun q =>
      ((u.gates.enroll p.stageKey (.ofPromotion p)).2.active? q.stageKey = some q.key : Bool)) =
      done.filter u.holds ++
        if (u.gates.enroll p.stageKey (.ofPromotion p)).2.active? p.stageKey = some p.key then [p]
        else [] := by
    rw [List.filter_append, List.filter_congr fun q hq => h.holds_enroll hq _ _,
      List.filter_singleton]
    simp
  refine ⟨h.settings, h.order, h.gate_enroll fun hk =>
    new ((List.filter_sublist.map Promotion.key).subset hk), hready ▸ ?_, ?_, ?_, ?_⟩
  all_goals split
  · simp [h.ready]
  · simp [h.ready]
  · exact h.closed
  · exact h.closed
  · exact h.held
  · exact h.held
  · rw [List.map_append]
    exact List.cons_subset.mpr ⟨by simp, fun k hk => List.mem_append_left _ (h.dirty hk)⟩
  · rw [List.map_append]
    exact fun k hk => List.mem_append_left _ (h.dirty hk)

end Opened

theorem initializeQueues_count {w : World} (h : w.Quiet)
    (hrun : initializeQueues.run.run w = (.ok n, u)) :
    n = (toAdmit w.settings w.store.promotionList).length := by
  unfold initializeQueues at hrun
  obtain ⟨all, v, hlist, hrun⟩ := attempt_ok hrun
  obtain ⟨rfl, rfl⟩ : w.store.promotionList = all ∧ w = v := by
    have hquiet : (ExceptT.mk listPromotions).run.run w = (.ok w.store.promotionList, w) :=
      listPromotions_quiet h
    rw [hquiet] at hlist
    cases hlist
    exact ⟨rfl, rfl⟩
  obtain ⟨_, v, hget, hrun⟩ := attempt_ok hrun
  cases hget
  obtain ⟨_, _, -, hrun⟩ := attempt_ok hrun
  obtain ⟨_, _, -, hrun⟩ := attempt_ok hrun
  obtain ⟨_, _, -, hrun⟩ := attempt_ok hrun
  cases hrun
  rfl

theorem initializeQueues_opened (settings : Settings) {s : Store}
    (distinct : (s.promotionList.map Promotion.key).Nodup) :
    Runs initializeQueues (World.start settings s) fun n u =>
      n = (toAdmit settings s.promotionList).length ∧
        Opened settings (toAdmit settings s.promotionList) u := by
  have hkeys := toAdmit_distinct settings distinct
  have hworks : ∀ p ∈ toAdmit settings s.promotionList, settings.worksOn p = true :=
    fun p hp => (mem_toAdmit.mp hp).2
  have hquiet : (World.start settings s).Quiet := rfl
  obtain ⟨n, u, hrun, v, log, rfl, done, hdone, hv⟩ := initializeQueues_run hquiet
    (A := fun left u => ∃ done, done ++ left = toAdmit settings s.promotionList ∧
      Opened settings done u)
    ⟨[], rfl, opened_start settings s⟩ (by
      rintro p left u ⟨done, hdone, hu⟩
      have hp : p ∈ toAdmit settings s.promotionList := by simp [← hdone]
      have hnew : p.key ∉ done.map Promotion.key := by
        rw [← hdone, List.map_append, List.nodup_append] at hkeys
        exact fun hk => hkeys.2.2 _ hk _ (by simp) rfl
      exact ⟨done ++ [p], by simpa using hdone, hu.arrive (hworks p hp) hnew⟩)
  rw [List.append_nil] at hdone
  subst hdone
  exact ⟨n, _, hrun, initializeQueues_count hquiet hrun, hv.settings, hv.order, hv.gate, hv.ready,
    hv.closed, hv.held, hv.dirty⟩

end World

open World

theorem Store.Keyed.distinct_keys {s : Store} (h : s.Keyed) :
    (s.promotionList.map Promotion.key).Nodup := by
  refine List.pairwise_map.mpr (h.sorted_promotionList.imp ?_)
  intro p q hpq he
  simp [Promotion.Precedes, he, Std.ReflCmp.compare_self] at hpq

/-- A promoter is started on a store, whose promotions lie under their own keys. It admits all those
that it works on. Of each stage that has some, the first gets it, those at work before the others and
then the oldest, and the rest is in line by age; no other stage is known. The queue has those that
got their stages ready, each once and in the order of admission. -/
theorem lines_at_start (settings : Settings) {s : Store} (keyed : s.Keyed) :
    let todo := s.promotionList.filter settings.worksOn
    Runs initializeQueues (World.start settings s) fun n u =>
      n = todo.length ∧
      (∀ stage, stage ∈ u.gates.stages ↔ ∃ p ∈ todo, p.stageKey = stage) ∧
      (∀ stage ∈ u.gates.stages, ∃ (first : Promotion) (line : List Promotion),
        (first :: line).Perm (todo.filter (·.stageKey = stage)) ∧
        (∀ q ∈ line, first.ComesBefore q) ∧ line.Pairwise Promotion.OlderThan ∧
        u.gates.active? stage = some first.key ∧
        u.gates.pending stage = line.map Promotion.key) ∧
      ∃ active : List Promotion, u.queue.ready = active.map Promotion.key ∧ u.queue.ready.Nodup ∧
        active.Pairwise Promotion.ComesBefore ∧
        ∀ p, p ∈ active ↔ p ∈ todo ∧ u.gates.active? p.stageKey = some p.key := by
  intro todo
  obtain ⟨n, u, hrun, hn, hu⟩ := initializeQueues_opened settings keyed.distinct_keys
  have hperm : (toAdmit settings s.promotionList).Perm todo := List.mergeSort_perm _ _
  have hrising : (toAdmit settings s.promotionList).Pairwise Promotion.ComesBefore :=
    toAdmit_rising settings keyed.distinct_keys
  have hready : u.queue.ready.Nodup := by
    rw [hu.ready]
    exact (toAdmit_distinct settings keyed.distinct_keys).sublist
      (List.filter_sublist.map Promotion.key)
  have hstages (stage : StageKey) :
      stage ∈ u.gates.stages ↔ ∃ p ∈ todo, p.stageKey = stage := by
    rw [Gates.mem_stages_iff, (hu.gate stage).known_iff]
    simp [forStage, hperm.mem_iff]
  refine ⟨n, u, hrun, hn.trans hperm.length_eq, hstages, fun stage hstage => ?_,
    (toAdmit settings s.promotionList).filter u.holds, hu.ready, hready, hrising.filter _,
    fun p => ?_⟩
  · have hmine : (forStage stage (toAdmit settings s.promotionList)).Perm
        (todo.filter (·.stageKey = stage)) := hperm.filter _
    obtain ⟨first, line, hsame, hrest⟩ :=
      (hu.gate stage).lined (hrising.filter _) (Gates.mem_stages_iff.mp hstage)
    exact ⟨first, line, hsame.trans hmine, hrest⟩
  · rw [List.mem_filter, hperm.mem_iff]
    simp [holds]

namespace World.Sample

def east (name stage : String) (seconds : Int) (phase : Phase) : Promotion where
  metadata := {
    ns := "ns", name, created := ⟨seconds, 0⟩, labels := .ofList [(shardLabel, "east")] }
  spec := ⟨stage, "v1"⟩
  status := .ofPhase phase

/-- Two promotions are at work in one stage, and an older one waits. The oldest of all is in no
shard. -/
def crowd : List Promotion := [east "a" "prod" 1 .pending, east "b" "prod" 3 .running,
  east "c" "prod" 2 .running, east "d" "test" 1 .pending, east "e" "test" 0 .failed,
  { metadata := { ns := "ns", name := "f", created := ⟨0, 0⟩ }, spec := ⟨"prod", "v1"⟩ }]

def crowded : Store := ({ defaultNamespace := "argocd" } : Store).afterAll (crowd.map .create)

end World.Sample

open World.Sample in
theorem lines_at_start_sample : crowded.Keyed ∧
    Runs initializeQueues (World.start { shard := some "east" } crowded) fun n u =>
      n = 4 ∧ u.gates.active? ⟨"ns", "prod"⟩ = some ⟨"ns", "c"⟩ := by
  have keyed : crowded.Keyed := (Store.indexed_afterAll "argocd" (crowd.map .create)).2.1
  obtain ⟨n, u, hrun, hn, hstages, hgates, -⟩ := lines_at_start { shard := some "east" } keyed
  refine ⟨keyed, n, u, hrun, hn.trans (by decide +kernel), ?_⟩
  let a := (east "a" "prod" 1 .pending).stamped 1
  let b := (east "b" "prod" 3 .running).stamped 2
  let c := (east "c" "prod" 2 .running).stamped 3
  have hmine : (crowded.promotionList.filter
      (Settings.worksOn { shard := some "east" })).filter (·.stageKey = ⟨"ns", "prod"⟩) =
      [a, b, c] := by decide +kernel
  have hknown : ⟨"ns", "prod"⟩ ∈ u.gates.stages := by
    have hc : c ∈ [a, b, c] := by simp
    rw [← hmine] at hc
    exact (hstages _).mpr ⟨c, (List.mem_filter.mp hc).1, rfl⟩
  obtain ⟨first, line, hsame, hfirst, -, hactive, -⟩ := hgates _ hknown
  rw [hmine] at hsame
  have hc : c ∈ first :: line := hsame.mem_iff.mpr (by simp)
  have hmem : first ∈ [a, b, c] := hsame.mem_iff.mp List.mem_cons_self
  -- Neither of the others comes before `c`.
  have hlate : ¬ a.ComesBefore c ∧ ¬ b.ComesBefore c := by decide +kernel
  rw [hactive]
  simp only [List.mem_cons, List.not_mem_nil, or_false] at hmem
  rcases List.mem_cons.mp hc with rfl | hline
  · rfl
  · rcases hmem with rfl | rfl | rfl
    · exact absurd (hfirst c hline) hlate.1
    · exact absurd (hfirst c hline) hlate.2
    · rfl

end StageGate
