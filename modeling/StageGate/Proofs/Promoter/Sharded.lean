import StageGate.Proofs.Promoter.Written

/-!
# Promoters that share a store

A promoter with a shard is responsible for the promotions that carry its label. It looks at the
label where it hears of a promotion; from then on it goes by the key. Main statement:
`sharded_work`. What it works on goes by a key under which a promotion with its label was created,
and carries the label itself where all that were created under the key do. Where a name is used
again without the label the promoter works on that one too: `strange_work`.
-/

namespace StageGate

namespace Store

variable {s s' t : Store} {settings : Settings} {k : PromotionKey} {p : Promotion}

theorem Written.changes (h : s.Written t) : s.feed.changes <+: t.feed.changes :=
  h.keeps (P := fun t => s.feed.changes <+: t.feed.changes)
    (fun _ _ _ hs hw => hs.trans (wrote hw).changes) (List.prefix_refl _)

-- ---------------------------------------------------------------------------
-- What was created under a key
-- ---------------------------------------------------------------------------

/-- What is stored was created as what it is, apart from its version and its status. -/
structure Descended (s : Store) : Prop where
  key_eq : ∀ {k p}, s.promotion? k = some p → p.key = k
  created : ∀ {k p}, s.promotion? k = some p →
    ∃ q, .promotionCreated q ∈ s.feed.changes ∧ q.bare = p.bare

theorem descended_empty (ns : String) : Descended { defaultNamespace := ns } where
  key_eq h := by cases h
  created h := by cases h

theorem Descended.write (h : s.Descended) {w : Write} (hw : s.write w = .ok s') :
    s'.Descended where
  key_eq hp := (wrote hw).key_eq h.key_eq hp
  created {k p} hp := by
    rcases (wrote hw).before_or_created h.key_eq hp with ⟨old, hold, hb⟩ | ⟨-, hc⟩
    · obtain ⟨q, hq, hqb⟩ := h.created hold
      exact ⟨q, (wrote hw).changes.subset hq, hqb.trans hb.symm⟩
    · exact ⟨p, hc, rfl⟩

def Enlisted (s : Store) (settings : Settings) (k : PromotionKey) : Prop :=
  ∃ q, .promotionCreated q ∈ s.feed.changes ∧ q.key = k ∧
    settings.isResponsibleFor q.metadata = true

theorem Enlisted.written (h : s.Enlisted settings k) (hw : s.Written t) :
    t.Enlisted settings k := by
  obtain ⟨q, hq, hk⟩ := h
  exact ⟨q, hw.changes.subset hq, hk⟩

theorem Descended.enlisted (h : s.Descended) (ho : s.Offers settings k) :
    s.Enlisted settings k := by
  obtain ⟨p, rfl, hr, hp | ⟨j, hp⟩⟩ := ho
  · exact ⟨p, hp, rfl, hr⟩
  · obtain ⟨q, hq, hb⟩ := h.created hp
    exact ⟨q, hq, Promotion.key_of_bare hb, settings.responsible_of_bare hb ▸ hr⟩

end Store

-- ---------------------------------------------------------------------------
-- Statuses that are written
-- ---------------------------------------------------------------------------

namespace Store

variable {s s' t : Store} {k : PromotionKey} {p : Promotion}

/-- All that was written since are statuses of a promotion that is `bare` otherwise. -/
def Restates (s : Store) (bare : Promotion) (t : Store) : Prop :=
  ∃ news, t.feed.changes = s.feed.changes ++ news ∧
    ∀ c ∈ news, ∃ old new, c = .promotionUpdated (some old) (some new) ∧ new.bare = bare

theorem Restates.refl : s.Restates bare s := ⟨[], by simp, by simp⟩

theorem Restates.trans (h : s.Restates bare s') (h' : s'.Restates bare t) : s.Restates bare t := by
  obtain ⟨news, hs, hnews⟩ := h
  obtain ⟨more, ht, hmore⟩ := h'
  refine ⟨news ++ more, by rw [ht, hs, List.append_assoc], fun c hc => ?_⟩
  exact (List.mem_append.mp hc).elim (hnews c) (hmore c)

theorem restates_updateStatus {version : UInt64} {status : PromotionStatus} {new : Promotion}
    (stored : s.promotion? k = some p) (h : s.updateStatus k version status = .ok (new, s')) :
    s.Restates p.bare s' := by
  obtain ⟨old, hold, -, rfl, -, -, feed⟩ := updateStatus_ok h
  obtain rfl : p = old := Option.some.inj (stored.symm.trans hold)
  refine ⟨_, by rw [feed, Feed.changes_emit], fun c hc => ?_⟩
  exact ⟨_, _, List.mem_singleton.mp hc, rfl⟩

theorem Restates.told (h : s.Restates bare t) {old new : Promotion}
    (hc : .promotionUpdated (some old) (some new) ∈ t.feed.changes.drop s.feed.front) :
    new.bare = bare := by
  obtain ⟨news, hs, hnews⟩ := h
  rw [hs, ← Feed.length_changes, List.drop_left] at hc
  obtain ⟨_, _, he, hb⟩ := hnews _ hc
  cases he
  exact hb

end Store

-- ---------------------------------------------------------------------------
-- What an attempt has to do with
-- ---------------------------------------------------------------------------

namespace World

variable {w u : World} {key k : PromotionKey} {p : Promotion} {mechanics : Mechanics}

/-- An attempt at a key works on a promotion: it has the mechanics do their work on it, or it writes
the status that makes it what it is. -/
inductive WorksOn (w : World) (mechanics : Mechanics) (key : PromotionKey) : Promotion → Prop where
  | handed (task : Task) (u : World) (prepared : (prepare key).run.run w = (.ok (some task), u)) :
      WorksOn w mechanics key task.promotion
  | written (old p : Promotion)
      (told : .promotionUpdated (some old) (some p) ∈
        ((reconcile mechanics key).run.run w).2.store.feed.changes.drop w.store.feed.front) :
      WorksOn w mechanics key p

theorem prepare_handed (h : w.Quiet) (hkey : ∀ p, w.store.promotion? key = some p → p.key = key)
    {task : Task} (hr : (prepare key).run.run w = (.ok (some task), u)) :
    ∃ p, w.store.promotion? key = some p ∧ task.promotion.bare = p.bare := by
  let counted : World :=
    { w with counters := { w.counters with reconciles := w.counters.reconciles + 1 } }
  have hcounted : counted.Quiet := h
  unfold prepare at hr
  simp only [attempt_bind, attempt_lift, run_count, readPromotion_quiet hcounted key, counted] at hr
  cases hp : w.store.promotion? key with
  | none =>
    rw [hp] at hr
    cases hr
  | some p =>
    obtain rfl := hkey p hp
    refine ⟨p, rfl, ?_⟩
    cases ho : p.isTerminal with
    | true =>
      simp only [hp, ho, if_true] at hr
      cases hr
    | false =>
      unfold proceed at hr
      simp only [hp, ho, Bool.false_eq_true, if_false, attempt_bind, attempt_lift,
        claimStage_run] at hr
      cases hc : (w.gates.claim p.stageKey (.ofPromotion p)).1 with
      | activeElsewhere other =>
        rw [hc] at hr
        cases hr
      | notNext head =>
        rw [hc] at hr
        cases hr
      | activated =>
        let claimed : World := { counted with
          gates := (w.gates.claim p.stageKey (.ofPromotion p)).2 }
        have hclaimed : claimed.Quiet := h
        obtain ⟨running, s, counters, log, hm, hrun⟩ := advance_quiet hclaimed hp ho
        obtain ⟨-, hbare, -, -⟩ := hm.spec hp ho
        simp only [claimed, counted] at hrun
        simp only [hc, if_true] at hr
        cases hs : s.stage? p.stageKey with
        | none =>
          obtain ⟨new, s', log, -, hrun⟩ := hs ▸ hrun
          rw [hrun] at hr
          cases hr
        | some stage =>
          have hrun := hs ▸ hrun
          rw [hrun] at hr
          cases hr
          exact hbare

/-- Every status that an attempt writes goes to the promotion that is stored under the key. -/
theorem tried_restates (h : w.Quiet) (hkey : ∀ p, w.store.promotion? key = some p → p.key = key)
    {outcome : Except ReconcileError Outcome} (ht : Tried mechanics key w outcome u) :
    u.store = w.store ∨
      ∃ p, w.store.promotion? key = some p ∧ w.store.Restates p.bare u.store := by
  rcases keeps_tried h ht with
    hk | ⟨p, running, s, s', counters, log, stored, unended, -, marked, concluded, rfl⟩
  · exact .inl hk.store
  · obtain rfl := hkey p stored
    obtain ⟨hrunning, hbare, -, -⟩ := marked.spec stored unended
    have hmarked : w.store.Restates p.bare s := by
      cases marked with
      | marked pending write => exact Store.restates_updateStatus stored write
      | kept open_ => exact .refl
    have hconcluded : s.Restates p.bare s' := by
      cases concluded with
      | ended end_ write => exact hbare ▸ Store.restates_updateStatus hrunning write
      | unfinished open_ again => exact .refl
    exact .inr ⟨p, stored, hmarked.trans hconcluded⟩

theorem WorksOn.stored (h : w.Quiet) (hkey : ∀ p, w.store.promotion? key = some p → p.key = key)
    (hw : w.WorksOn mechanics key p) :
    ∃ q, w.store.promotion? key = some q ∧ p.bare = q.bare := by
  cases hw with
  | handed task u prepared => exact prepare_handed h hkey prepared
  | written old p told =>
    rcases tried_restates h hkey (reconcile_quiet h hkey mechanics) with hs | ⟨q, hq, hr⟩
    · rw [hs, List.drop_of_length_le (Nat.le_of_eq (Feed.length_changes _))] at told
      cases told
    · exact ⟨q, hq, hr.told told⟩

end World

-- ---------------------------------------------------------------------------
-- Whole runs
-- ---------------------------------------------------------------------------

open World

/-- Every key that the promoter knows, and every key in hand, is one under which a promotion to be
worked on was created. -/
structure System.Enlists (settings : Settings) (s : System) : Prop where
  settings_eq : s.world.settings = settings
  known : ∀ {k}, s.world.Knows k → s.world.store.Enlisted settings k
  inHand : ∀ {j}, j ∈ s.jobs → s.world.store.Enlisted settings j.key

theorem World.mentions_of_answered {w : World} {key k : PromotionKey}
    {outcome : Except ReconcileError Outcome} (h : (w.answered key outcome).Mentions k) :
    k = key ∨ w.queue.Mentions k := by
  rcases outcome with e | _ | delay
  · exact WorkQueue.mentions_of_addRateLimited h
  · exact .inr h
  · exact WorkQueue.mentions_of_addAfter (q := w.queue.forget key) h

namespace System.Enlists

variable {settings : Settings} {ns : String} {s s' : System}

theorem start (settings : Settings) (ns : String) : Enlists settings (.empty settings ns) where
  settings_eq := rfl
  known hk := by
    rcases hk with ⟨stage, hs⟩ | hm | hm | ⟨d, hd, -⟩
    · exact absurd hs Gate.not_stands_empty
    · cases hm
    · cases hm
    · cases hd
  inHand hj := by cases hj

theorem pass (h : Enlists settings s) {w : World} {jobs : List Job}
    (settings_eq : w.settings = s.world.settings) (written : s.world.store.Written w.store)
    (known : ∀ {k}, w.Knows k → s.world.Knows k ∨ ∃ j ∈ s.jobs, j.key = k)
    (inHand : ∀ {j}, j ∈ jobs → s.world.Knows j.key ∨ ∃ i ∈ s.jobs, i.key = j.key) :
    Enlists settings ⟨w, jobs⟩ := by
  have enlisted {k : PromotionKey} (hk : s.world.Knows k ∨ ∃ j ∈ s.jobs, j.key = k) :
      w.store.Enlisted settings k := by
    rcases hk with hk | ⟨j, hj, rfl⟩
    · exact (h.known hk).written written
    · exact (h.inHand hj).written written
  exact ⟨settings_eq.trans h.settings_eq, fun hk => enlisted (known hk),
    fun hj => enlisted (inHand hj)⟩

theorem deliver (h : Enlists settings s) (hq : s.world.Quiet) (hd : s.world.store.Descended)
    {delivery : Delivery} {w : World} (received : receive.run s.world = (some delivery, w)) :
    Enlists settings { s with world := ((onDelivery delivery).run w).2 } := by
  have hl := learns_delivered hq received
  refine ⟨hl.settings.trans h.settings_eq, fun {k} hk => ?_, fun {j} hj => ?_⟩
  · show Store.Enlisted _ settings k
    rw [hl.store]
    rcases hl.knows hk with hk | ho
    · exact h.known hk
    · exact hd.enlisted (h.settings_eq ▸ ho)
  · show Store.Enlisted _ settings j.key
    rw [hl.store]
    exact h.inHand hj

theorem requeue (h : Enlists settings s) {w : World} {jobs : List Job}
    (settings_eq : w.settings = s.world.settings) (store : w.store = s.world.store)
    (gates : w.gates = s.world.gates)
    (mentioned : ∀ {k}, w.queue.Mentions k →
      s.world.queue.Mentions k ∨ ∃ j ∈ s.jobs, j.key = k)
    (inHand : ∀ {j}, j ∈ jobs → s.world.queue.Mentions j.key ∨ ∃ i ∈ s.jobs, i.key = j.key) :
    Enlists settings ⟨w, jobs⟩ := by
  refine h.pass settings_eq (store ▸ .refl) (fun hk => ?_) fun hj => (inHand hj).imp .inr id
  rcases hk with ⟨stage, hs⟩ | hm
  · exact .inl (.inl ⟨stage, gates ▸ hs⟩)
  · exact (mentioned hm).imp .inr id

theorem held {before later : List Job} {key : PromotionKey} {progress : Progress}
    (job : s.jobs = before ++ ⟨key, progress⟩ :: later) : ∃ j ∈ s.jobs, j.key = key := by
  rw [job]
  exact ⟨_, List.mem_append_right _ List.mem_cons_self, rfl⟩

theorem same_keys {before later : List Job} {key : PromotionKey} {i : Progress} {j : Job}
    (job : s.jobs = before ++ ⟨key, i⟩ :: later) {progress : Progress}
    (hj : j ∈ before ++ ⟨key, progress⟩ :: later) : ∃ i ∈ s.jobs, i.key = j.key := by
  rw [job]
  rcases List.mem_append.mp hj with hj | hj
  · exact ⟨j, List.mem_append_left _ hj, rfl⟩
  · rcases List.mem_cons.mp hj with rfl | hj
    · exact ⟨_, List.mem_append_right _ List.mem_cons_self, rfl⟩
    · exact ⟨j, List.mem_append_right _ (List.mem_cons_of_mem _ hj), rfl⟩

theorem attempt (h : Enlists settings s) (ht : s.world.Traced) {key : PromotionKey}
    {mechanics : Mechanics} {outcome : Except ReconcileError Outcome} {w : World}
    {before later : List Job} (job : s.jobs = before ++ ⟨key, .taken⟩ :: later)
    (tried : Tried mechanics key s.world outcome w) :
    Enlists settings ⟨w, before ++ ⟨key, .tried outcome⟩ :: later⟩ := by
  have hkey (p : Promotion) (hp : s.world.store.promotion? key = some p) : p.key = key :=
    ht.store.key_eq hp
  have hsettings : w.settings = s.world.settings := by
    rcases keeps_tried ht.quiet tried with
      hk | ⟨p, running, s, s', counters, log, -, -, -, -, -, rfl⟩
    · exact hk.settings
    · rfl
  refine h.pass hsettings (written_tried ht.quiet tried) (fun hk => ?_)
    fun hj => .inr (same_keys job hj)
  rcases knows_of_tried ht.quiet hkey tried hk with hk | rfl
  · exact .inl hk
  · exact .inr (held job)

theorem step (h : Enlists settings s) (ht : s.world.Traced) (hd : s.world.store.Descended)
    (hs : Step .free s s') : Enlists settings s' := by
  cases hs with
  | write ask allowed =>
    exact h.pass rfl (Store.written_after _ _) .inl fun hj => .inr ⟨_, hj, rfl⟩
  | deliver received => exact h.deliver ht.quiet hd received
  | @take key? w taken =>
    rw [run_takeKey] at taken
    obtain ⟨rfl, rfl⟩ := Prod.mk.inj taken
    obtain ⟨hrest, hkey⟩ := WorkQueue.mentions_of_tryGet
      (Prod.eta (s.world.queue.tryGet s.world.now)).symm
    refine h.requeue rfl rfl rfl (fun hm => .inl (hrest _ hm)) fun hj => ?_
    rcases List.mem_append.mp hj with hj | hj
    · obtain ⟨k, hk, rfl⟩ := List.mem_map.mp hj
      exact .inl (hkey k (Option.mem_toList.mp hk))
    · exact .inr ⟨_, hj, rfl⟩
  | attempt key mechanics employed job tried =>
    have hkey (p : Promotion) (hp : s.world.store.promotion? key = some p) : p.key = key :=
      ht.store.key_eq hp
    have htried := reconcile_quiet ht.quiet hkey mechanics
    rw [tried] at htried
    exact h.attempt ht job htried
  | report key outcome job =>
    obtain ⟨counters, log, hr⟩ := onOutcome_run key outcome s.world
    rw [hr]
    refine h.requeue rfl rfl rfl (fun hm => ?_) fun hj => .inr (same_keys job hj)
    rcases mentions_of_answered hm with rfl | hm
    · exact .inr (held job)
    · exact .inl hm
  | giveBack key job =>
    refine h.requeue rfl rfl rfl (fun hm => .inl (WorkQueue.mentions_of_done hm)) fun hj => .inr ?_
    rw [job]
    refine ⟨_, ?_, rfl⟩
    exact (List.mem_append.mp hj).elim (List.mem_append_left _)
      fun hj => List.mem_append_right _ (List.mem_cons_of_mem _ hj)
  | elapse now onward =>
    exact h.requeue rfl rfl rfl .inl fun hj => .inr ⟨_, hj, rfl⟩
  | retime delayed same =>
    exact h.requeue rfl rfl rfl (fun hm => .inl (WorkQueue.mentions_of_retime same hm))
      fun hj => .inr ⟨_, hj, rfl⟩

theorem of_reachable (h : Reachable .free (.empty settings ns) s) : Enlists settings s := by
  induction h with
  | start => exact start settings ns
  | step reached step ih =>
    have hd := reached.store_inv (Store.descended_empty ns) fun _ _ _ hs hw => hs.write hw
    exact ih.step (traced_of_reachable reached) hd step

end System.Enlists

/-- In every run of a promoter with a shard, among clients that write what they like: an attempt
works on promotions of its key only, and under the key some promotion with the label of the shard
was created. Where every promotion created under the key carries the label, so does the one that is
worked on. -/
theorem sharded_work {settings : Settings} {ns : String} {s : System}
    (h : System.Reachable .free (.empty settings ns) s) {shard : String}
    (sharded : settings.shard = some shard) {key : PromotionKey} (job : ⟨key, .taken⟩ ∈ s.jobs)
    {mechanics : Mechanics} {p : Promotion} (works : s.world.WorksOn mechanics key p) :
    p.key = key ∧
    (∃ q, .promotionCreated q ∈ s.world.store.feed.changes ∧ q.key = key ∧
      q.metadata.label? shardLabel = some shard) ∧
    ((∀ q, .promotionCreated q ∈ s.world.store.feed.changes → q.key = key →
        q.metadata.label? shardLabel = some shard) →
      p.metadata.label? shardLabel = some shard) := by
  have ht := traced_of_reachable h
  have hd := h.store_inv (Store.descended_empty ns) fun _ _ _ hs hw => hs.write hw
  have labelled (m : Metadata) :
      settings.isResponsibleFor m = true ↔ m.label? shardLabel = some shard := by
    simp [Settings.isResponsibleFor, sharded]
  obtain ⟨stored, hstored, hbare⟩ := works.stored ht.quiet fun _ hp => ht.store.key_eq hp
  obtain ⟨q, hq, hqk, hresponsible⟩ := (System.Enlists.of_reachable h).inHand job
  have hkey : p.key = key := (Promotion.key_of_bare hbare).trans (ht.store.key_eq hstored)
  refine ⟨hkey, ⟨q, hq, hqk, (labelled _).mp hresponsible⟩, fun hall => ?_⟩
  obtain ⟨origin, horigin, hob⟩ := hd.created hstored
  have hsame : origin.bare = p.bare := hob.trans hbare.symm
  have hlabel := hall origin horigin ((Promotion.key_of_bare hsame).trans hkey)
  rw [← labelled, ← settings.responsible_of_bare hsame, labelled]
  exact hlabel

-- ---------------------------------------------------------------------------
-- A name that is used again without the label
-- ---------------------------------------------------------------------------

namespace System.Sample

def eastern : Settings := { shard := some "east" }

def labelled : Promotion :=
  let plain := named "a" "prod"
  { plain with metadata := { plain.metadata with labels := .ofList [(shardLabel, "east")] } }

def enlisted : World :=
  told (World.start eastern { defaultNamespace := "argocd" }) (.create labelled)
    (.promotionCreated (labelled.stamped 1))

theorem enlisted_reachable : Reachable .free (.empty eastern "argocd") ⟨enlisted, []⟩ :=
  reaches_told _ _ .start (by decide +kernel)

/-- That one is gone, and one without the label was created in its place. -/
def disowned : World :=
  written (written enlisted (.delete labelled.key)) (.create (named "a" "prod"))

theorem disowned_reachable : Reachable .free (.empty eastern "argocd") ⟨disowned, []⟩ :=
  reaches_written _ (reaches_written _ enlisted_reachable)

end System.Sample

open System.Sample in
theorem sharded_work_sample : ∃ s key p,
    System.Reachable .free (.empty eastern "argocd") s ∧ ⟨key, .taken⟩ ∈ s.jobs ∧
    s.world.WorksOn specCheck key p ∧ p.metadata.label? shardLabel = some "east" := by
  have htaken : System.Reachable .free (.empty eastern "argocd")
      ⟨(takeKey.run enlisted).2, [⟨labelled.key, .taken⟩]⟩ := enlisted_reachable.step (.take rfl)
  have hworks : (takeKey.run enlisted).2.WorksOn specCheck labelled.key
      { labelled.stamped 2 with status := .ofPhase .running } :=
    .written (labelled.stamped 1) _ (by decide +kernel)
  have hcreated : ((takeKey.run enlisted).2.store.feed.changes.all fun
      | .promotionCreated q => q.metadata.label? shardLabel = some "east"
      | _ => true) = true := by decide +kernel
  obtain ⟨-, -, hlabel⟩ := sharded_work htaken rfl List.mem_cons_self hworks
  refine ⟨_, _, _, htaken, List.mem_cons_self, hworks, hlabel fun q hq _ => ?_⟩
  simpa using List.all_eq_true.mp hcreated _ hq

open System.Sample in
theorem strange_work : ∃ s key p,
    System.Reachable .free (.empty eastern "argocd") s ∧ ⟨key, .taken⟩ ∈ s.jobs ∧
    s.world.WorksOn specCheck key p ∧ p.metadata.label? shardLabel = none := by
  refine ⟨⟨(takeKey.run disowned).2, [⟨labelled.key, .taken⟩]⟩, labelled.key,
    { (named "a" "prod").stamped 3 with status := .ofPhase .running },
    disowned_reachable.step (.take rfl), List.mem_cons_self,
    .written ((named "a" "prod").stamped 2) _ ?_, ?_⟩ <;> decide +kernel

end StageGate
