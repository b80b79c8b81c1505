import StageGate.Proofs.Promoter.Attempt
import StageGate.Proofs.Promoter.System
import StageGate.Proofs.Promoter.Walks

/-!
# Claims that come too late

An attempt looks at its promotion, claims the stage and looks again, since the promotion may have
ended in between and nobody else would give the stage back then. Main statement:
`late_claim_stays_iff`. Where calls to the store may fail, but nothing worse happens to them, a claim
for a promotion that has ended stays exactly if the second look fails. The attempts that follow do
not get that far: they stop at the first look.
-/

namespace StageGate

namespace World

-- ---------------------------------------------------------------------------
-- An attempt in two parts
-- ---------------------------------------------------------------------------

/-- The first look of an attempt. -/
def look (key : PromotionKey) : Action (Except StoreError (Option Promotion)) := do
  count fun c => { c with reconciles := c.reconciles + 1 }
  readPromotion key

def proceedTo (mechanics : Mechanics) (key : PromotionKey) (p : Promotion) : Attempt Outcome := do
  match ← proceed key p with
  | none => return .done
  | some task => finish task (mechanics task.stage task.promotion)

variable {w u v : World} {key k : PromotionKey} {p : Promotion} {mechanics : Mechanics}
  {stage other : StageKey}

theorem Dispatching.look {P : (α : Type) → Action α → Prop} (h : Dispatching P)
    (key : PromotionKey) : P _ (World.look key) :=
  h.bind (h.count fun _ => rfl) fun _ => h.readPromotion key

theorem reconcile_run (mechanics : Mechanics) (key : PromotionKey) (w : World) :
    (reconcile mechanics key).run.run w =
      match (look key).run w with
      | (.error cause, u) => (.error (.readPromotion key cause), u)
      | (.ok none, u) => (.ok .done, u)
      | (.ok (some p), u) =>
        if p.isTerminal then (.ok .done, u) else (proceedTo mechanics key p).run.run u := by
  unfold reconcile prepare look proceedTo
  simp only [attempt_bind, attempt_lift, run_count, run_bind]
  rcases (readPromotion key).run _ with ⟨cause | _ | p, u⟩
  · rfl
  · rfl
  · by_cases ht : p.isTerminal = true
    · simp only [if_pos ht]
      rfl
    · rcases hp : (proceed key p).run.run u with ⟨e | _ | task, v⟩ <;> simp [ht, hp]

-- ---------------------------------------------------------------------------
-- Calls that may fail
-- ---------------------------------------------------------------------------

/-- Some of the calls to come will fail; nothing else will happen to any of them. -/
def OnlyOutages (w : World) : Prop :=
  ∀ s ∈ w.disturbances.stretches, ∃ outage, s.disturbance = { outage }

namespace OnlyOutages

theorem next (h : w.OnlyOutages) (call : StoreCall) :
    ∃ outage, w.disturbances.next call = { outage } := by
  unfold Disturbances.next
  cases hf : w.disturbances.stretches.find? (·.call = call) with
  | none => exact ⟨none, rfl⟩
  | some s => exact h s (List.mem_of_find?_eq_some hf)

theorem rest (h : w.OnlyOutages) (call : StoreCall) :
    ({ w with disturbances := w.disturbances.rest call } : World).OnlyOutages := by
  have go (stretches : List Stretch) (hs : ∀ s ∈ stretches, ∃ outage, s.disturbance = { outage }) :
      ∀ s ∈ Disturbances.useUp call stretches, ∃ outage, s.disturbance = { outage } := by
    induction stretches with
    | nil => simp [Disturbances.useUp]
    | cons first stretches ih =>
      intro s hm
      rw [Disturbances.useUp] at hm
      split at hm
      · rcases List.mem_append.mp hm with hm | hm
        · -- What is left of a stretch is disturbed as it was.
          obtain ⟨outage, ho⟩ := hs first List.mem_cons_self
          refine ⟨outage, ?_⟩
          unfold Stretch.rest at hm
          split at hm
          · simp at hm
          · rw [List.mem_singleton.mp hm, ← ho]
        · exact hs s (List.mem_cons_of_mem _ hm)
      · rcases List.mem_cons.mp hm with rfl | hm
        · exact hs s List.mem_cons_self
        · exact ih (fun t ht => hs t (List.mem_cons_of_mem _ ht)) s hm
  exact go _ h

end OnlyOutages

def seen (w : World) (key : PromotionKey) : Except StoreError (Option Promotion) :=
  match (w.disturbances.next .readPromotion).outage with
  | some text => .error (.unavailable text)
  | none => .ok (w.store.promotion? key)

theorem readPromotion_run (h : w.OnlyOutages) (key : PromotionKey) :
    (readPromotion key).run w =
      (w.seen key, { w with disturbances := w.disturbances.rest .readPromotion }) := by
  obtain ⟨outage, ho⟩ := h.next .readPromotion
  have hcall : (callStore .readPromotion (some key) fun s => (.ok (s.promotion? key), s)).run w =
      (w.seen key, { w with disturbances := w.disturbances.rest .readPromotion }) := by
    unfold seen
    simp only [callStore, StateT.run, ho]
    cases outage <;> rfl
  unfold readPromotion
  simp only [run_bind, run_get, hcall, ho]
  rcases w.seen key with e | _ | p <;> rfl

structure Looked (w u : World) : Prop where
  same : u = { w with disturbances := u.disturbances }
  outages : u.OnlyOutages

namespace Looked

theorem refl (h : w.OnlyOutages) : w.Looked w := ⟨rfl, h⟩

theorem trans (h : w.Looked u) (h' : u.Looked v) : w.Looked v :=
  ⟨by rw [h'.same, h.same], h'.outages⟩

theorem store (h : w.Looked u) : u.store = w.store := by rw [h.same]

end Looked

theorem looked_readPromotion (h : w.OnlyOutages) (key : PromotionKey) :
    w.Looked ((readPromotion key).run w).2 := by
  rw [readPromotion_run h]
  exact ⟨rfl, h.rest _⟩

theorem composing_looked :
    Composing fun _ x => ∀ w : World, w.OnlyOutages → w.Looked (x.run w).2 where
  pure _ _ h := .refl h
  bind hx hf w h := (hx w h).trans (hf _ _ (hx w h).outages)

theorem looked_select (h : w.OnlyOutages) (gs : Gates) (stage : StageKey) :
    w.Looked ((gs.select revalidate stage).run w).2 :=
  composing_looked.select (fun key _ h => looked_readPromotion h key) gs stage w h

-- ---------------------------------------------------------------------------
-- Dispatch and release
-- ---------------------------------------------------------------------------

structure Calm (w u : World) : Prop where
  store : u.store = w.store
  outages : u.OnlyOutages
  holders : ∀ stage, u.gates.active? stage = w.gates.active? stage

namespace Calm

theorem refl (h : w.OnlyOutages) : w.Calm w := ⟨rfl, h, fun _ => rfl⟩

theorem trans (h : w.Calm u) (h' : u.Calm v) : w.Calm v :=
  ⟨h'.store.trans h.store, h'.outages, fun stage => (h'.holders stage).trans (h.holders stage)⟩

theorem aside (h : w.OnlyOutages) (store : u.store = w.store) (gates : u.gates = w.gates)
    (disturbances : u.disturbances = w.disturbances) : w.Calm u where
  store := store
  outages := by
    unfold OnlyOutages
    rw [disturbances]
    exact h
  holders _ := by rw [gates]

end Calm

theorem Looked.calm (h : w.Looked u) : w.Calm u := by
  refine ⟨h.store, h.outages, fun _ => ?_⟩
  rw [h.same]

theorem dispatching_calm :
    Dispatching fun _ x => ∀ w : World, w.OnlyOutages → w.Calm (x.run w).2 where
  pure _ _ h := .refl h
  bind hx hf w h := (hx w h).trans (hf _ _ (hx w h).outages)
  record _ _ h := .aside h rfl rfl rfl
  count _ _ h := .aside h rfl rfl rfl
  enqueue _ _ h := .aside h rfl rfl rfl
  enqueueRateLimited key w h := by
    rw [run_enqueueRateLimited]
    exact .aside h rfl rfl rfl
  readPromotion key _ h := (looked_readPromotion h key).calm
  seek stage _ w h := by
    have hlooked := looked_select h w.gates stage
    rw [run_seek]
    exact ⟨hlooked.store, hlooked.outages, fun _ => Gates.active?_select revalidate w⟩

theorem calm_enqueueNext (h : w.OnlyOutages) (stage : StageKey) :
    w.Calm ((enqueueNext stage).run w).2 := dispatching_calm.enqueueNext stage w h

theorem release_calm (h : w.OnlyOutages) (stage : StageKey) (key : PromotionKey) :
    ∃ u : World, u.store = w.store ∧ u.gates = (w.gates.conclude stage key).2 ∧
      u.Calm ((release stage key).run w).2 := by
  obtain ⟨counters, log, hr⟩ := release_run stage key w
  let u : World := { w with gates := (w.gates.conclude stage key).2, counters, log }
  have hu : u.OnlyOutages := h
  exact ⟨u, rfl, rfl, hr ▸ calm_enqueueNext hu stage⟩

-- ---------------------------------------------------------------------------
-- The attempt that comes too late
-- ---------------------------------------------------------------------------

def LookFails (w : World) : Prop := (w.disturbances.next .readPromotion).outage.isSome = true

/-- A world after an attempt at a promotion that has ended: it still holds the stage in one case. -/
structure Leaves (w : World) (stage : StageKey) (key : PromotionKey) (stays : Prop) (u : World) :
    Prop where
  store : u.store = w.store
  outages : u.OnlyOutages
  stays : u.gates.active? stage = some key ↔ stays

/-- Only the second look tells a late claim from one in time: if it succeeds the stage is given back,
and in no case does the attempt get to the mechanics. -/
theorem advance_late (h : w.OnlyOutages) (ended : w.store.hasEnded key = true)
    (holds : w.gates.active? stage = some key) : ∃ answer u,
    (advance key stage).run.run w = (answer, u) ∧ (∀ task, answer ≠ .ok (some task)) ∧
      w.Leaves stage key w.LookFails u := by
  unfold advance LookFails
  simp only [attempt_bind, attempt_lift, readPromotion_run h, seen]
  cases (w.disturbances.next .readPromotion).outage with
  | some text => exact ⟨_, _, rfl, by simp, rfl, h.rest _, by simpa using holds⟩
  | none =>
    have hgone : (w.store.promotion? key).filter (!·.isTerminal) = none := by
      unfold Store.hasEnded at ended
      cases hp : w.store.promotion? key with
      | none => rfl
      | some p => simpa [hp] using ended
    obtain ⟨u, hstore, hgates, hcalm⟩ := release_calm (h.rest .readPromotion) stage key
    simp only [hgone, attempt_bind, attempt_lift]
    refine ⟨_, _, rfl, by simp, hcalm.store.trans hstore, hcalm.outages, ?_⟩
    rw [hcalm.holders, hgates]
    simp [Gates.active?_conclude]

theorem proceedTo_late (h : w.OnlyOutages) (ended : w.store.hasEnded p.key = true)
    (mechanics : Mechanics) : w.Leaves p.stageKey p.key
      ((w.gates.claim p.stageKey (.ofPromotion p)).1 = .activated ∧ w.LookFails)
      ((proceedTo mechanics p.key p).run.run w).2 := by
  have claim_gate : (w.gates.claim p.stageKey (.ofPromotion p)).2.gate p.stageKey =
      ((w.gates.gate p.stageKey).claim w.gates.order (.ofPromotion p)).2 := Gates.gate_claim_self _
  unfold proceedTo proceed
  simp only [attempt_bind, attempt_lift, claimStage_run]
  cases hc : (w.gates.claim p.stageKey (.ofPromotion p)).1 with
  | activated =>
    have hclaimed : ({ w with
      gates := (w.gates.claim p.stageKey (.ofPromotion p)).2 } : World).OnlyOutages := h
    obtain ⟨answer, u, hrun, hnone, hleaves⟩ :=
      advance_late hclaimed ended (Gates.active?_of_activated hc)
    simp only [if_true, hrun, true_and]
    rcases answer with e | _ | task
    · exact ⟨hleaves.store, hleaves.outages, hleaves.stays⟩
    · exact ⟨hleaves.store, hleaves.outages, hleaves.stays⟩
    · exact absurd rfl (hnone task)
  | activeElsewhere other =>
    obtain ⟨hholder, hne⟩ := Gate.holder_of_activeElsewhere hc
    have hne : other ≠ p.key := hne
    refine ⟨rfl, h, ?_⟩
    show ((w.gates.claim p.stageKey (.ofPromotion p)).2.gate p.stageKey).holder = some p.key ↔ _
    rw [claim_gate, hholder]
    simpa using hne
  | notNext head =>
    have hholder := Gate.holder_of_notNext hc
    let deferred : World := { w with
      gates := (w.gates.claim p.stageKey (.ofPromotion p)).2
      counters := { w.counters with deferrals := w.counters.deferrals + 1 }
      log := .decision .promotionDeferred p.key p.stageKey :: w.log }
    have hdeferred : deferred.OnlyOutages := h
    have hcalm := calm_enqueueNext hdeferred p.stageKey
    refine ⟨hcalm.store, hcalm.outages, ?_⟩
    show (((enqueueNext p.stageKey).run deferred).2).gates.active? p.stageKey = some p.key ↔ _
    rw [hcalm.holders]
    show ((w.gates.claim p.stageKey (.ofPromotion p)).2.gate p.stageKey).holder = some p.key ↔ _
    rw [claim_gate, hholder]
    simp

-- ---------------------------------------------------------------------------
-- The attempts that follow
-- ---------------------------------------------------------------------------

/-- An attempt at a promotion that has ended gets no further than the first look. -/
theorem reconcile_ended (h : w.OnlyOutages) (ended : w.store.hasEnded key = true)
    (mechanics : Mechanics) : w.Calm ((reconcile mechanics key).run.run w).2 ∧
      (((reconcile mechanics key).run.run w).1 = .ok .done ↔ ¬ w.LookFails) := by
  let counted : World :=
    { w with counters := { w.counters with reconciles := w.counters.reconciles + 1 } }
  have hcounted : counted.OnlyOutages := h
  have hlook : (look key).run w = (w.seen key,
      { counted with disturbances := w.disturbances.rest .readPromotion }) :=
    readPromotion_run hcounted key
  have hcalm : w.Calm { counted with disturbances := w.disturbances.rest .readPromotion } :=
    ⟨rfl, hcounted.rest _, fun _ => rfl⟩
  rw [reconcile_run, hlook]
  unfold seen LookFails
  cases (w.disturbances.next .readPromotion).outage with
  | some text => exact ⟨hcalm, by simp⟩
  | none =>
    unfold Store.hasEnded at ended
    cases hp : w.store.promotion? key with
    | none => exact ⟨hcalm, by simp⟩
    | some p =>
      have ht : p.isTerminal = true := by simpa [hp] using ended
      simp only [ht]
      exact ⟨hcalm, by simp⟩

def retried (key : PromotionKey) (attempts : List Mechanics) (w : World) : World :=
  attempts.foldl (fun w mechanics => ((reconcile mechanics key).run.run w).2) w

theorem calm_retried (h : w.OnlyOutages) (ended : w.store.hasEnded key = true)
    (attempts : List Mechanics) : w.Calm (retried key attempts w) := by
  induction attempts generalizing w with
  | nil => exact .refl h
  | cons mechanics attempts ih =>
    obtain ⟨hcalm, -⟩ := reconcile_ended h ended mechanics
    exact hcalm.trans (ih hcalm.outages (by rw [hcalm.store]; exact ended))

end World

open World

/-- A promotion has ended since an attempt looked at it, and calls to the store may fail. After the
attempt and whatever others follow, it holds its stage exactly if its claim had succeeded and the
look after the claim failed. -/
theorem late_claim_stays_iff {w : World} {p : Promotion} (outages : w.OnlyOutages)
    (ended : w.store.hasEnded p.key = true) (mechanics : Mechanics) (attempts : List Mechanics) :
    (retried p.key attempts ((proceedTo mechanics p.key p).run.run w).2).gates.active? p.stageKey =
        some p.key ↔
      (w.gates.claim p.stageKey (.ofPromotion p)).1 = .activated ∧ w.LookFails := by
  have hleaves := proceedTo_late outages ended mechanics
  have hcalm := calm_retried hleaves.outages (by rw [hleaves.store]; exact ended) attempts
  rw [hcalm.holders]
  exact hleaves.stays

-- ---------------------------------------------------------------------------
-- A stage that is not given back
-- ---------------------------------------------------------------------------

namespace System.Sample

def inHand : World :=
  (takeKey.run ((onDelivery (.change (.promotionCreated (promotion.stamped 2)))).run
    { world with position := 1 }).2).2

/-- The worker has looked at the promotion; then it was deleted, and the promoter has heard of it. -/
def deleted : World :=
  let seen := ((look promotion.key).run inHand).2
  ((onDelivery (.change (.promotionDeleted (promotion.stamped 2)))).run
    { seen with store := seen.store.after (.delete promotion.key), position := 2 }).2

def failing : World :=
  { deleted with
    disturbances := ⟨[{ call := .readPromotion, disturbance := { outage := some "down" } }]⟩ }

end System.Sample

open System.Sample in
theorem late_claim_stays_sample : failing.OnlyOutages ∧
    failing.store.hasEnded (promotion.stamped 2).key = true ∧
    (retried promotion.key [specCheck]
      ((proceedTo specCheck promotion.key (promotion.stamped 2)).run.run failing).2).gates.active?
        promotion.stageKey = some promotion.key := by
  have houtages : failing.OnlyOutages := by
    intro s hs
    exact ⟨some "down", by rw [List.mem_singleton.mp hs]⟩
  have hended : failing.store.hasEnded (promotion.stamped 2).key = true := by decide +kernel
  have hstays := (late_claim_stays_iff houtages hended specCheck [specCheck]).mpr
    ⟨by decide +kernel, by unfold LookFails; decide +kernel⟩
  exact ⟨houtages, hended, hstays⟩

open System.Sample in
theorem late_claim_not_given_back : ∃ (w v : World) (p : Promotion) (jobs : List Job),
    System.Reachable .orderly (.empty {} "argocd") ⟨w, jobs⟩ ∧
    ((look p.key).run w).1 = .ok (some p) ∧
    System.Reachable .orderly ⟨((look p.key).run w).2, jobs⟩ ⟨v, jobs⟩ ∧
    v.store.promotion? p.key = none ∧ v.store.feed.receive v.position = none ∧
    v.gates.active? p.stageKey = none ∧
    let failing : World := { v with
      disturbances := ⟨[{ call := .readPromotion, disturbance := { outage := some "down" } }]⟩ }
    let first := (proceedTo specCheck p.key p).run.run failing
    let second := (reconcile specCheck p.key).run.run ((onOutcome p.key first.1).run first.2).2
    first.1 = .error (.readPromotion p.key (.unavailable "down")) ∧ second.1 = .ok .done ∧
      second.2.store.feed.receive second.2.position = none ∧
      second.2.gates.active? p.stageKey = some p.key := by
  let jobs : List Job := [⟨promotion.key, .taken⟩]
  have hadmitted := reachable.step
    (.hear (.change (.promotionCreated (promotion.stamped 2))) 1 (by decide +kernel))
  have hinHand : System.Reachable .orderly (.empty {} "argocd") ⟨inHand, jobs⟩ :=
    hadmitted.step (.take rfl)
  have hwritten : System.Reachable .orderly ⟨((look promotion.key).run inHand).2, jobs⟩ _ :=
    System.Reachable.start.step (.write (.delete promotion.key) (And.intro trivial trivial))
  have hdeleted : System.Reachable .orderly ⟨((look promotion.key).run inHand).2, jobs⟩
      ⟨deleted, jobs⟩ :=
    hwritten.step (.hear (.change (.promotionDeleted (promotion.stamped 2))) 2 (by decide +kernel))
  refine ⟨inHand, deleted, promotion.stamped 2, jobs, hinHand, rfl, hdeleted, ?_, ?_, ?_, rfl, rfl,
    ?_, ?_⟩ <;> decide +kernel

end StageGate
