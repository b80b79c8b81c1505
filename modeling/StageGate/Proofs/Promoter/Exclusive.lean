import StageGate.Proofs.Promoter.Frame
import StageGate.Proofs.Promoter.System

/-!
# At most one running promotion for each stage

Among clients that create pending promotions and write terminal statuses, a promotion is marked as
running only once it holds its stage, and it keeps the stage until it has ended: the feed tells of
ends that are ends, and so does a resync. Main statement: `running_holds_stage`.
-/

namespace StageGate

open World

structure World.Exclusive (settings : Settings) (w : World) : Prop where
  settings_eq : w.settings = settings
  quiet : w.Quiet
  chronicle : w.store.Chronicle
  running : ∀ k p, w.store.promotion? k = some p → settings.isResponsibleFor p.metadata = true →
    p.phase = .running → w.gates.active? p.stageKey = some k

namespace World.Exclusive

variable {settings : Settings} {w u : World} {key : PromotionKey} {mechanics : Mechanics}

theorem keeps (h : w.Exclusive settings) (hk : w.Keeps u) : u.Exclusive settings where
  settings_eq := hk.settings.trans h.settings_eq
  quiet := hk.quiet h.quiet
  chronicle := hk.store ▸ h.chronicle
  running k p hp hr hrun := by
    rw [hk.store] at hp
    refine hk.holders _ _ (h.running k p hp hr hrun) ?_
    rw [Store.hasEnded_of_stored hp, Promotion.unended_of_running hrun]

theorem stored_of_running {s : Store} {w : Write} {p : Promotion} (hw : w.Orderly)
    (hp : (s.after w).promotion? key = some p) (hrun : p.phase = .running) :
    s.promotion? key = some p := by
  rcases s.after_cases w with he | he
  · rwa [he] at hp
  · generalize s.after w = s' at hp he
    have other (k : PromotionKey) {q : Promotion} (hq : q.phase ≠ .running)
        (hs : ∀ j, s'.promotion? j = if j = k then some q else s.promotion? j) :
        s.promotion? key = some p := by
      rw [hs] at hp
      split at hp
      · cases hp
        exact absurd hrun hq
      · exact hp
    cases Store.wrote he with
    | created q fresh promotions feed =>
      refine other q.key ?_ (Store.promotion?_insert promotions)
      show q.phase ≠ .running
      rw [show q.phase = .pending from hw]
      decide
    | updated k status old new stored given promotions feed =>
      refine other old.key ?_ (Store.promotion?_insert promotions)
      rw [given]
      intro hr
      rw [Write.Orderly, show status.phase = .running from hr] at hw
      cases hw
    | deleted k q stored promotions feed =>
      rw [Store.promotion?_erase promotions] at hp
      split at hp
      · cases hp
      · exact hp
    | elsewhere w promotions feed => exact (Store.promotion?_same promotions key).symm.trans hp

theorem write (h : w.Exclusive settings) {ask : Write} (hr : ask.Respects w.store)
    (ho : ask.Orderly) : ({ w with store := w.store.after ask } : World).Exclusive settings where
  settings_eq := h.settings_eq
  quiet := h.quiet
  chronicle := h.chronicle.next (h.chronicle.after hr)
  running k p hp hresp hrun := h.running k p (stored_of_running ho hp hrun) hresp hrun

theorem tried (h : w.Exclusive settings) {outcome : Except ReconcileError Outcome}
    (ht : Tried mechanics key w outcome u) : u.Exclusive settings := by
  rcases keeps_tried h.quiet ht with
    hk | ⟨p, running, s, s', counters, log, stored, unended, claim, marked, concluded, rfl⟩
  · exact h.keeps hk
  · obtain rfl := h.chronicle.key_eq stored
    obtain ⟨hstored, hbare, hphase, -⟩ := marked.spec stored unended
    have hkey := Promotion.key_of_bare hbare
    have hs : s.Chronicle := h.chronicle.next (marked.lawful h.chronicle stored unended)
    have hlawful := concluded.lawful hs hstored (Promotion.unended_of_running hphase)
    refine ⟨h.settings_eq, h.quiet, hs.next hlawful, fun k q hq hr hrun => ?_⟩
    by_cases hk : k = p.key
    · -- What is stored under the key stems from the promotion that claimed the stage.
      have hq' : s'.promotion? running.key = some q := by rw [hkey, ← hk]; exact hq
      have hstage := Promotion.stageKey_of_bare ((concluded.bare hs hstored hq').trans hbare)
      rw [hstage, hk]
      exact Gates.active?_of_activated claim
    · rw [concluded.others hs (by rw [hkey]; exact hk), marked.others h.chronicle hk] at hq
      refine holds_claim _ _ _ (h.running k q hq hr hrun) ?_
      rw [Store.hasEnded_of_stored hq, Promotion.unended_of_running hrun]

theorem delivered (h : w.Exclusive settings) {delivery : Delivery}
    (hr : receive.run w = (some delivery, u)) :
    ((onDelivery delivery).run u).2.Exclusive settings := by
  obtain ⟨position, hnext, rfl⟩ := System.receive_ok hr
  have hread : ({ w with position } : World).Exclusive settings :=
    ⟨h.settings_eq, h.quiet, h.chronicle, h.running⟩
  cases delivery with
  | change c =>
    rw [onDelivery_change]
    exact hread.keeps (keeps_handle hread.quiet fun p hp =>
      h.chronicle.past (Feed.mem_of_receive hnext) hp)
  | lagged missed =>
    have hlogged := hread.keeps
      (keeps_of (.refl _) (.refl _) w.counters (.watchLagged missed :: w.log))
    rw [onDelivery_lagged]
    exact hlogged.keeps (keeps_resync hlogged.quiet)

theorem start (settings : Settings) (ns : String) :
    (World.start settings { defaultNamespace := ns }).Exclusive settings where
  settings_eq := rfl
  quiet := rfl
  chronicle := Store.chronicle_empty ns
  running k p hp _ _ := by cases hp

theorem step {s s' : System} (h : s.world.Exclusive settings) (hs : System.Step .orderly s s') :
    s'.world.Exclusive settings := by
  cases hs with
  | write ask allowed => exact h.write allowed.1 allowed.2
  | deliver received => exact h.delivered received
  | take taken =>
    rw [run_takeKey] at taken
    cases taken
    exact ⟨h.settings_eq, h.quiet, h.chronicle, h.running⟩
  | attempt key mechanics employed job tried =>
    have hkey := fun p => h.chronicle.key_eq (k := key) (p := p)
    have ht := reconcile_quiet h.quiet hkey mechanics
    rw [tried] at ht
    exact h.tried ht
  | report key outcome job =>
    obtain ⟨counters, log, hr⟩ := onOutcome_run key outcome s.world
    rw [hr]
    exact ⟨h.settings_eq, h.quiet, h.chronicle, h.running⟩
  | giveBack key job => exact ⟨h.settings_eq, h.quiet, h.chronicle, h.running⟩
  | elapse now onward => exact ⟨h.settings_eq, h.quiet, h.chronicle, h.running⟩
  | retime delayed same => exact ⟨h.settings_eq, h.quiet, h.chronicle, h.running⟩

end World.Exclusive

theorem World.exclusive_of_reachable {settings : Settings} {ns : String} {s : System}
    (h : System.Reachable .orderly (.empty settings ns) s) : s.world.Exclusive settings := by
  induction h with
  | start => exact .start settings ns
  | step reached step ih => exact ih.step step

/-- In every state that a system of orderly clients reaches, a promotion that the promoter works
on and that is running holds its stage, so there is at most one of them for each stage. -/
theorem running_holds_stage (settings : Settings) (ns : String) {s : System}
    (h : System.Reachable .orderly (.empty settings ns) s) :
    (∀ p ∈ s.world.store.promotionList, settings.isResponsibleFor p.metadata = true →
      p.phase = .running → s.world.gates.active? p.stageKey = some p.key) ∧
    ∀ p ∈ s.world.store.promotionList, ∀ q ∈ s.world.store.promotionList,
      settings.isResponsibleFor p.metadata = true → settings.isResponsibleFor q.metadata = true →
      p.phase = .running → q.phase = .running → p.stageKey = q.stageKey → p = q := by
  have hx := exclusive_of_reachable h
  have holds : ∀ p ∈ s.world.store.promotionList, s.world.store.promotion? p.key = some p ∧
      (settings.isResponsibleFor p.metadata = true → p.phase = .running →
        s.world.gates.active? p.stageKey = some p.key) := by
    intro p hp
    obtain ⟨k, hk⟩ := Store.mem_promotionList_iff.mp hp
    obtain rfl := hx.chronicle.key_eq hk
    exact ⟨hk, hx.running p.key p hk⟩
  refine ⟨fun p hp => (holds p hp).2, fun p hp q hq hpr hqr hprun hqrun hstage => ?_⟩
  obtain ⟨hps, hpa⟩ := holds p hp
  obtain ⟨hqs, hqa⟩ := holds q hq
  have hpa := hpa hpr hprun
  rw [hstage, hqa hqr hqrun] at hpa
  rw [← Option.some.inj hpa, hqs] at hps
  exact (Option.some.inj hps).symm

open System.Sample in
theorem running_holds_stage_sample : ∃ s p, System.Reachable .orderly (.empty {} "argocd") s ∧
    p ∈ s.world.store.promotionList ∧ p.phase = .running ∧
      s.world.gates.active? ⟨"ns", "test"⟩ = some ⟨"ns", "a"⟩ := by
  let playbook : Playbook := ({} : Playbook).set "a" [.status (.ofPhase .running)]
  let p : Promotion := { promotion.stamped 3 with status := .ofPhase .running }
  have hreached := Run.reaches_runUntil (B := fun _ => True) (r := ⟨world, playbook⟩)
    (fun _ _ => trivial) (fun _ _ _ _ => trivial) (fun _ => false) 2 trivial reachable
  have hmem :
      p ∈ (Run.runUntil (fun _ => false) 2 ⟨world, playbook⟩).world.store.promotionList := by
    decide +kernel
  exact ⟨_, p, hreached, hmem, rfl, (running_holds_stage {} "argocd" hreached).1 p hmem rfl rfl⟩

end StageGate
