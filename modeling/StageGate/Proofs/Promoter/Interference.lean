import StageGate.Proofs.Gates.Ordered
import StageGate.Proofs.Promoter.Sharded
import StageGate.Proofs.Promoter.StatusWrites

/-!
# Lines among other writers

Other writers come between any two calls of the promoter to the store, calls fail, and other workers
free stages meanwhile. In spite of this every line rises from the oldest promotion to the youngest,
no promotion stands in it twice, and an entry tells the age under which a promotion of its key was
created. `Leads` says so of what becomes of a world, and that the store only comes to what can be
written to it. Main statement: `Steady.reconcile`, from the steps that the actions are made of.
-/

namespace StageGate

-- ---------------------------------------------------------------------------
-- What was created
-- ---------------------------------------------------------------------------

namespace Store

variable {s t : Store} {k : PromotionKey} {p : Promotion} {e : Entry}

def Announced (s : Store) (e : Entry) : Prop := ∃ q ∈ s.created, Entry.ofPromotion q = e

theorem Written.created (h : s.Written t) : s.created <+: t.created :=
  List.IsPrefix.filterMap _ h.changes

theorem Written.creations (h : s.Written t) (k : PromotionKey) :
    s.creations k <+: t.creations k := List.IsPrefix.filter _ h.created

theorem Keyed.written (h : s.Keyed) (hw : s.Written t) : t.Keyed :=
  hw.keeps (P := Keyed) (fun _ _ _ hs hw => hs.write hw) h

theorem Current.written (h : s.Current) (hw : s.Written t) : t.Current :=
  hw.keeps (P := Current) (fun _ _ _ hs hw => hs.write hw) h

theorem Announced.written (h : s.Announced e) (hw : s.Written t) : t.Announced e := by
  obtain ⟨q, hq, he⟩ := h
  exact ⟨q, hw.created.subset hq, he⟩

theorem Descended.written (h : s.Descended) (hw : s.Written t) : t.Descended :=
  hw.keeps (fun _ _ _ hs hw => hs.write hw) h

theorem Descended.announced (h : s.Descended) (hp : s.promotion? k = some p) :
    s.Announced (.ofPromotion p) := by
  obtain ⟨q, hq, hb⟩ := h.created hp
  refine ⟨q, mem_created.mpr hq, ?_⟩
  show Entry.ofPromotion q.bare = Entry.ofPromotion p.bare
  rw [hb]

theorem written_meddled (target : Option PromotionKey) (ms : List Meddling) (s : Store) :
    s.Written (ms.foldl (Meddling.apply target) s) := by
  induction ms generalizing s with
  | nil => exact .refl
  | cons m ms ih =>
    refine Written.trans ?_ (ih _)
    rcases Store.meddled target s m with hm | ⟨w, hm⟩
    · rw [hm]
      exact .refl
    · rw [hm]
      exact written_after s w

end Store

-- ---------------------------------------------------------------------------
-- Who is in line
-- ---------------------------------------------------------------------------

namespace Gate

variable {g : Gate} {order : Entry → Entry → Ordering} {e x : Entry}

theorem mem_line_push (h : x ∈ (g.push order e).waiting.items) :
    e = x ∨ x ∈ g.waiting.items :=
  (Backlog.mem_push.mp h).imp_left fun h => h.2.symm

theorem mem_line_enroll (h : x ∈ (g.enroll order e).2.waiting.items) :
    e = x ∨ x ∈ g.waiting.items := by
  cases hh : g.holder with
  | none =>
    rw [enroll_of_idle hh] at h
    exact .inr (List.eraseP_sublist.subset h)
  | some holder =>
    by_cases hk : holder = e.key
    · rw [enroll_of_holder (hk ▸ hh)] at h
      exact .inr h
    · rw [enroll_of_other hh hk] at h
      exact mem_line_push h

theorem mem_line_claim (h : x ∈ (g.claim order e).2.waiting.items) :
    e = x ∨ x ∈ g.waiting.items := by
  unfold claim at h
  split at h
  · split at h
    · exact .inr h
    · exact mem_line_push h
  · split at h
    · exact .inr h
    · split at h
      · exact .inr (List.mem_of_mem_tail h)
      · exact mem_line_push h

end Gate

namespace Gates

variable {gs : Gates} {s t : Store} {stage : StageKey} {e : Entry}

def Call.entry? : Call → Option Entry
  | .enroll _ e | .claim _ e => some e
  | _ => none

theorem mem_line_perform {c : Call} (h : e ∈ ((gs.perform c).2.gate stage).waiting.items) :
    c.entry? = some e ∨ e ∈ (gs.gate stage).waiting.items := by
  -- A call acts at one gate at most, so it is enough to look at that one.
  have at_gate {gs' : Gates} {s : StageKey} {g : Gate}
      (hgate : ∀ other, gs'.gate other = if other = s then g else gs.gate other)
      (hs : e ∈ (gs'.gate stage).waiting.items)
      (hg : e ∈ g.waiting.items → c.entry? = some e ∨ e ∈ (gs.gate s).waiting.items) :
      c.entry? = some e ∨ e ∈ (gs.gate stage).waiting.items := by
    rw [hgate] at hs
    split at hs
    · next ho => exact ho ▸ hg hs
    · exact .inr hs
  cases c with
  | enroll s x =>
    exact at_gate (fun _ => gate_enroll x) h
      fun hm => (Gate.mem_line_enroll hm).imp_left (congrArg some)
  | claim s x =>
    exact at_gate (fun _ => gate_claim x) h
      fun hm => (Gate.mem_line_claim hm).imp_left (congrArg some)
  | conclude s key =>
    exact at_gate (fun _ => gate_conclude key) h
      fun hm => .inr ((Gate.conclude_lost _ key).rest.subset hm)
  | select s check start =>
    obtain ⟨passed, hlost, -⟩ := Gate.select_lost check (gs.gate s) start
    exact at_gate (fun _ => gate_select start) h fun hm => .inr (hlost.rest.subset hm)
  | peek s => exact .inr h
  | pop s => exact at_gate (fun _ => gate_pop) h fun hm => .inr ((Gate.pop_lost _).rest.subset hm)
  | remove s key =>
    exact at_gate (fun _ => gate_remove key) h
      fun hm => .inr ((Gate.remove_lost _ key).rest.subset hm)

/-- Every line rises by age and key, nobody stands twice at a gate, and the entries in line are
those of promotions that were created. -/
structure Reflect (gs : Gates) (s : Store) : Prop where
  order : gs.order = Entry.oldestFirst
  distinct : gs.Distinct
  inOrder : ∀ stage, (gs.gate stage).InOrder Entry.oldestFirst
  announced : ∀ {stage e}, e ∈ (gs.gate stage).waiting.items → s.Announced e

theorem reflect_start (s : Store) : ({} : Gates).Reflect s where
  order := rfl
  distinct := distinct_start _
  inOrder _ := List.Pairwise.nil
  announced h := absurd h List.not_mem_nil

namespace Reflect

theorem written (h : gs.Reflect s) (hw : s.Written t) : gs.Reflect t :=
  { h with announced := fun he => (h.announced he).written hw }

theorem perform (h : gs.Reflect s) (c : Call) (entry : ∀ e, c.entry? = some e → s.Announced e) :
    (gs.perform c).2.Reflect s where
  order := (order_perform gs c).trans h.order
  distinct := forall_gate_perform (Gate.kept_distinct gs.order) h.distinct c
  inOrder := by
    have horder := h.order
    refine forall_gate_perform ?_ h.inOrder c
    rw [horder]
    exact Gate.kept_inOrder Entry.oldestFirst
  announced he := (mem_line_perform he).elim (entry _) h.announced

theorem rising (h : gs.Reflect s) (stage : StageKey) :
    (gs.gate stage).waiting.items.Pairwise fun a b => Entry.oldestFirst a b = .lt :=
  Gate.rising (h.distinct stage) (h.inOrder stage)

end Reflect

end Gates

-- ---------------------------------------------------------------------------
-- What every step keeps
-- ---------------------------------------------------------------------------

namespace World

variable {w u v : World} {key : PromotionKey} {p : Promotion} {ε : Type}

structure Lined (w : World) : Prop where
  store : w.store.Descended
  gates : w.gates.Reflect w.store

structure Leads (w u : World) : Prop where
  written : w.store.Written u.store
  lined : w.Lined → u.Lined

namespace Leads

theorem trans (h : w.Leads v) (h' : v.Leads u) : w.Leads u :=
  ⟨h.written.trans h'.written, fun hw => h'.lined (h.lined hw)⟩

theorem perform (c : Gates.Call) (entry : w.Lined → ∀ e, c.entry? = some e → w.store.Announced e)
    (written : w.store.Written u.store) (gates : u.gates = (w.gates.perform c).2) :
    w.Leads u where
  written := written
  lined h := ⟨h.store.written written, gates ▸ (h.gates.perform c (entry h)).written written⟩

theorem restore (written : w.store.Written u.store) (gates : u.gates = w.gates) : w.Leads u where
  written := written
  lined h := ⟨h.store.written written, gates ▸ h.gates.written written⟩

theorem aside (store : u.store = w.store) (gates : u.gates = w.gates) : w.Leads u :=
  restore (store ▸ .refl) gates

end Leads

def Steady (x : Action α) : Prop := ∀ w : World, w.Leads (x.run w).2

namespace Steady

variable {x : Action α} {f : α → Action β}

theorem composing : Composing @Steady :=
  .of_rel (fun _ => .aside rfl rfl) fun h h' => h.trans h'

theorem isResponsibleFor (m : Metadata) : Steady (World.isResponsibleFor m) :=
  fun _ => .aside rfl rfl

theorem conclude (stage : StageKey) (key : PromotionKey) :
    Steady (World.atGates (·.conclude stage key)) :=
  fun _ => .perform (.conclude stage key) (fun _ _ h => by cases h) .refl rfl

theorem callStore {call : StoreCall} {target : Option PromotionKey}
    {act : Store → Except StoreError α × Store} (acts : ∀ s : Store, s.Written (act s).2) :
    Steady (World.callStore call target act) := by
  intro w
  have hbefore : w.store.Written (w.found call target) := Store.written_meddled _ _ _
  rw [callStore_run]
  cases (w.disturbances.next call).outage with
  | some text => exact .restore hbefore rfl
  | none => exact .restore ((hbefore.trans (acts _)).trans (Store.written_meddled _ _ _)) rfl

theorem listPromotions : Steady World.listPromotions := callStore fun _ => .refl

theorem listRunning (app : ApplicationKey) : Steady (World.listRunning app) :=
  callStore fun _ => .refl

/-- The line that a search leaves is what it made of the line that it began with. -/
theorem seek (stage : StageKey) (looks : ∀ gs : Gates, Steady (gs.select World.revalidate stage)) :
    Steady (World.seek stage) :=
  fun w => .perform (.select stage World.revalidate w) (fun _ _ h => by cases h)
    (looks w.gates w).written rfl

theorem attempting : Attempting @Steady where
  toComposing := composing
  record _ _ := .aside rfl rfl
  count _ _ := .aside rfl rfl
  enqueue _ _ := .aside rfl rfl
  enqueueRateLimited key w := by
    rw [run_enqueueRateLimited]
    exact .aside rfl rfl
  readPromotion _ := composing.readPromotion (fun _ => .aside rfl rfl) (callStore fun _ => .refl)
    fun _ => conclude _ _
  seek := seek
  conclude := conclude
  get _ := .aside rfl rfl
  readStage _ := callStore fun _ => .refl
  updateStatus key version status := callStore fun s => by
    split
    · next h => exact Store.written_updateStatus h
    · exact .refl

theorem readPromotion (key : PromotionKey) : Steady (World.readPromotion key) :=
  attempting.readPromotion key

theorem release (stage : StageKey) (key : PromotionKey) : Steady (World.release stage key) :=
  attempting.release stage key

theorem markRunning (key : PromotionKey) (stageKey : StageKey) (p : Promotion) :
    Steady (World.markRunning key stageKey p).run := by
  unfold World.markRunning
  split
  · exact composing.lift_bind (fun _ => .aside rfl rfl) fun _ =>
      composing.lift_bind (fun _ => .aside rfl rfl) fun _ => attempting.setStatus _ _
  · exact composing.pure _

theorem advance (key : PromotionKey) (stageKey : StageKey) :
    Steady (World.advance key stageKey).run := by
  unfold World.advance
  refine composing.lift_bind (readPromotion key) fun answer => ?_
  rcases answer with e | latest?
  · exact composing.pure _
  · simp only
    split
    · exact composing.lift_bind (release _ _) fun _ => composing.pure _
    · refine composing.attempt_bind (markRunning _ _ _) fun running? => ?_
      rcases running? with _ | running
      · exact composing.pure _
      · simp only
        split
        · exact composing.pure _
        · refine composing.lift_bind (attempting.readStage _) fun stage? => ?_
          rcases stage? with e | _ | stage
          · exact composing.pure _
          · exact composing.attempt_bind (attempting.setStatus _ _) fun _ => composing.pure _
          · exact composing.pure _

end Steady

-- ---------------------------------------------------------------------------
-- Answers of the store
-- ---------------------------------------------------------------------------

/-- A call that succeeds is answered by the store as it is at one moment of the call. -/
theorem callStore_ok (call : StoreCall) (target : Option PromotionKey)
    (act : Store → Except StoreError α × Store) {a : α}
    (h : ((callStore call target act).run w).1 = .ok a) :
    ∃ s : Store, w.store.Written s ∧ (act s).1 = .ok a ∧
      (act s).2.Written ((callStore call target act).run w).2.store := by
  rw [callStore_run] at h ⊢
  cases hout : (w.disturbances.next call).outage with
  | some text =>
    rw [hout] at h
    cases h
  | none =>
    rw [hout] at h
    exact ⟨w.found call target, Store.written_meddled _ _ _, h, Store.written_meddled _ _ _⟩

theorem readPromotion_ok {p? : Option Promotion} (h : ((readPromotion key).run w).1 = .ok p?) :
    ∃ s : Store, w.store.Written s ∧ s.promotion? key = p? ∧
      s.Written ((readPromotion key).run w).2.store := by
  obtain ⟨s, hbefore, hanswer, hafter⟩ := callStore_ok .readPromotion (some key)
    (fun s => (.ok (s.promotion? key), s)) h
  rw [← store_readPromotion] at hafter
  exact ⟨s, hbefore, Except.ok.inj hanswer, hafter⟩

theorem Lined.announced {s : Store} {k : PromotionKey} (h : w.Lined) (before : w.store.Written s)
    (stored : s.promotion? k = some p) (after : s.Written u.store) :
    u.store.Announced (.ofPromotion p) :=
  ((h.store.written before).announced stored).written after

-- ---------------------------------------------------------------------------
-- A whole attempt
-- ---------------------------------------------------------------------------

/-- Where the rest rests on what was known before, the writes to the store do not. -/
theorem Leads.andThen (h : w.Leads v) (written : v.store.Written u.store)
    (rest : w.Lined → v.Leads u) : w.Leads u :=
  ⟨h.written.trans written, fun hw => (rest hw).lined (h.lined hw)⟩

def claimed (w : World) (p : Promotion) : World :=
  { w with gates := (w.gates.claim p.stageKey (.ofPromotion p)).2 }

theorem leads_claimed (h : w.store.Announced (.ofPromotion p)) : w.Leads (w.claimed p) :=
  .perform (.claim p.stageKey (.ofPromotion p)) (fun _ _ he => Option.some.inj he ▸ h) .refl rfl

theorem leads_claimStage (p : Promotion) (w : World) :
    (w.claimed p).Leads ((claimStage p).run w).2 := by
  rw [claimStage_eq]
  exact Steady.attempting.heed p _ (w.claimed p)

theorem leads_proceed (key : PromotionKey) (p : Promotion) (w : World) :
    (w.claimed p).Leads ((proceed key p).run.run w).2 := by
  unfold proceed
  rw [run_lift_bind, run_bind]
  refine (leads_claimStage p w).trans ?_
  cases ((claimStage p).run w).1 with
  | true => exact Steady.advance key p.stageKey _
  | false => exact Steady.composing.pure _ _

theorem Steady.prepare (key : PromotionKey) : Steady (World.prepare key).run := by
  unfold World.prepare
  refine composing.lift_bind (attempting.count fun _ => rfl) fun _ w => ?_
  rw [run_lift_bind, run_bind]
  rcases hanswer : ((World.readPromotion key).run w).1 with e | _ | p
  · exact (readPromotion key w).trans (composing.pure _ _)
  · exact (readPromotion key w).trans (composing.pure _ _)
  · obtain ⟨s, hbefore, hp, hafter⟩ := readPromotion_ok hanswer
    simp only
    split
    · exact (readPromotion key w).trans (composing.pure _ _)
    · have hproceed := leads_proceed key p ((World.readPromotion key).run w).2
      exact (readPromotion key w).andThen hproceed.written
        fun hw => (leads_claimed (hw.announced hbefore hp hafter)).trans hproceed

theorem Steady.reconcile (mechanics : Mechanics) (key : PromotionKey) :
    Steady (World.reconcile mechanics key).run := by
  unfold World.reconcile
  refine composing.attempt_bind (prepare key) fun task? => ?_
  rcases task? with _ | task
  · exact composing.pure _
  · exact attempting.finish task _

end World

end StageGate
