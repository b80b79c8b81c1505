import StageGate.Proofs.Promoter.LateEvent

/-!
# Whom a resync leaves at the stages

A promoter that falls behind misses changes for good, and a resync is to make up for that. Main
statement: `holders_after_resync`. Whoever holds a stage after a resync is stored and has not ended.
It is a promotion of that stage, or else it holds the stage since before and its name was used for
two stages. A resync goes by the name, so it leaves such a holder where it is: `stale_holder_kept`.
-/

namespace StageGate

namespace System

/-- What a system reaches if the promoter also loses changes: at any time it may go on from another
place in the feed, without having heard of what it passes over. -/
inductive LossyReachable (rules : Rules) (start : System) : System → Prop where
  | start : LossyReachable rules start start
  | step (reached : LossyReachable rules start s) (step : Step rules s s') :
      LossyReachable rules start s'
  | lose (reached : LossyReachable rules start s) (position : Nat) :
      LossyReachable rules start { s with world := { s.world with position } }

theorem Reachable.lossy {rules : Rules} {start s : System} (h : Reachable rules start s) :
    LossyReachable rules start s := by
  induction h with
  | start => exact .start
  | step _ step ih => exact ih.step step

/-- Where the promoter is in the feed says nothing of where the keys at the gates come from. -/
theorem LossyReachable.traced {settings : Settings} {ns : String} {s : System}
    (h : LossyReachable .free (.empty settings ns) s) : s.world.Traced := by
  induction h with
  | start => exact .start settings ns
  | step _ step ih => exact ih.step step
  | lose _ position ih => exact ⟨ih.quiet, ih.store, ih.standing⟩

end System

namespace World

variable {w u : World} {stage : StageKey} {k : PromotionKey} {p : Promotion}

-- ---------------------------------------------------------------------------
-- Round by round
-- ---------------------------------------------------------------------------

/-- A promotion of this name may hold the stage after a resync: it has not ended, and it held the
stage before or is stored as one of the stage. -/
def Remains (w : World) (stage : StageKey) (k : PromotionKey) : Prop :=
  w.store.hasEnded k = false ∧
    (w.gates.active? stage = some k ∨ ∃ p, w.store.promotion? k = some p ∧ p.stageKey = stage)

/-- The first round, with these stages to come: nobody has got a stage, and whoever has one that was
gone over has not ended. -/
structure Freeing (w : World) (rest : List StageKey) (u : World) : Prop where
  keeps : w.Keeps u
  before : ∀ stage k, u.gates.active? stage = some k → w.gates.active? stage = some k
  unended : ∀ stage k, u.gates.active? stage = some k → stage ∉ rest → w.store.hasEnded k = false

structure Admitting (w : World) (list : List Promotion) (u : World) : Prop where
  keeps : w.Keeps u
  listed : ∀ p ∈ list, w.store.promotion? p.key = some p ∧ p.isTerminal = false
  remains : ∀ stage k, u.gates.active? stage = some k → w.Remains stage k

theorem freeing_start (w : World) : w.Freeing w.gates.stages w where
  keeps := .refl w
  before _ _ ha := ha
  unended _ _ ha hnot := absurd (Gates.mem_stages_of_stands (.inl ha)) hnot

theorem Freeing.releaseStale {rest : List StageKey} (h : w.Freeing (stage :: rest) u)
    (quiet : u.Quiet) : Runs (World.releaseStale stage) u fun _ v => w.Freeing rest v := by
  have hrest {other : StageKey} {j : PromotionKey} (ha : u.gates.active? other = some j)
      (hne : other ≠ stage) (hnot : other ∉ rest) : w.store.hasEnded j = false :=
    h.unended other j ha (by simp [hne, hnot])
  refine releaseStale_quiet quiet stage (fun hidle => ?idle) (fun k hk hopen => ?kept)
    (fun k counters log hk hover => ?freed)
  case idle =>
    refine ⟨h.keeps, h.before, fun other j ha hnot => hrest ha ?_ hnot⟩
    rintro rfl
    rw [hidle] at ha
    cases ha
  case kept =>
    refine ⟨h.keeps, h.before, fun other j ha hnot => ?_⟩
    by_cases hne : other = stage
    · subst hne
      rw [hk] at ha
      cases ha
      rwa [← h.keeps.store]
    · exact hrest ha hne hnot
  case freed =>
    have hactive {other : StageKey} {j : PromotionKey}
        (ha : (u.gates.conclude stage k).2.active? other = some j) :
        u.gates.active? other = some j ∧ other ≠ stage := by
      rw [Gates.active?_conclude] at ha
      split at ha
      · cases ha
      · next hnot =>
        refine ⟨ha, ?_⟩
        rintro rfl
        exact hnot ⟨rfl, hk⟩
    have hkeeps : w.Keeps { u with gates := (u.gates.conclude stage k).2, counters, log } :=
      h.keeps.trans (keeps_of (holds_conclude hover) (.refl _) counters log)
    refine ⟨hkeeps, fun other j ha => h.before other j (hactive ha).1, fun other j ha hnot => ?_⟩
    exact hrest (hactive ha).1 (hactive ha).2 hnot

theorem Freeing.admits (h : w.Freeing [] u)
    (keyed : ∀ k p, w.store.promotion? k = some p → p.key = k) :
    w.Admitting (toAdmit u.settings u.store.promotionList) u where
  keeps := h.keeps
  listed p hp := by
    obtain ⟨hlist, hw⟩ := mem_toAdmit.mp hp
    rw [h.keeps.store] at hlist
    obtain ⟨k, hk⟩ := Store.mem_promotionList_iff.mp hlist
    exact ⟨keyed k p hk ▸ hk, (Settings.worksOn_iff.mp hw).1⟩
  remains stage k ha := ⟨h.unended stage k ha List.not_mem_nil, .inl (h.before stage k ha)⟩

theorem Admitting.onPromotionCreated {rest : List Promotion} (h : w.Admitting (p :: rest) u) :
    w.Admitting rest ((World.onPromotionCreated p).run u).2 where
  keeps := h.keeps.trans (keeps_onPromotionCreated p)
  listed q hq := h.listed q (List.mem_cons_of_mem _ hq)
  remains stage k ha := by
    by_cases hp : u.settings.worksOn p = true
    · obtain ⟨counters, log, hr⟩ := onPromotionCreated_run hp
      rw [hr, Gates.active?_enroll] at ha
      split at ha
      · next hs =>
        cases hu : u.gates.active? p.stageKey with
        | some j =>
          rw [hu] at ha
          obtain rfl : j = k := Option.some.inj ha
          exact h.remains stage j (hs ▸ hu)
        | none =>
          rw [hu] at ha
          obtain rfl : p.key = k := Option.some.inj ha
          obtain ⟨hstored, hopen⟩ := h.listed p List.mem_cons_self
          exact ⟨(Store.hasEnded_of_stored hstored).trans hopen, .inr ⟨p, hstored, hs.symm⟩⟩
      · exact h.remains stage k ha
    · rw [onPromotionCreated_pass (by simpa using hp)] at ha
      exact h.remains stage k ha

/-- Whatever the gates are like: after a resync only promotions hold stages that may remain. -/
theorem resync_remains (quiet : w.Quiet)
    (keyed : ∀ k p, w.store.promotion? k = some p → p.key = k) :
    Runs resync w fun _ u => w.Keeps u ∧
      ∀ stage k, u.gates.active? stage = some k → w.Remains stage k := by
  refine runs_resync (F := w.Freeing) (A := w.Admitting)
    (D := fun _ u => w.Keeps u ∧ ∀ stage k, u.gates.active? stage = some k → w.Remains stage k)
    (freeing_start w) ?free ?freed ?enroll ?enrolled ?send
  case free => exact fun stage rest u hu => hu.releaseStale (hu.keeps.quiet quiet)
  case freed => exact fun u hu => ⟨hu.keeps.quiet quiet, hu.admits keyed⟩
  case enroll => exact fun p rest u hu => hu.onPromotionCreated
  case enrolled => exact fun u log hu => ⟨hu.keeps.relog log, hu.remains⟩
  case send =>
    rintro stage rest u ⟨hu, hall⟩
    have hquiet : u.Quiet := hu.quiet quiet
    refine ⟨hu.trans (keeps_enqueueNext hquiet stage), fun other k ha => ?_⟩
    rw [enqueueNext_holders] at ha
    exact hall other k ha

end World

open World

/-- In every state that clients reach who write what they like, with a promoter that loses changes:
a resync succeeds, and whoever holds a stage after it is stored, has not ended and was created for
the stage. It is a promotion of the stage, unless it held the stage before the resync and its name
was also used for a promotion of another stage. Whoever held a stage and has not ended has it
still. -/
theorem holders_after_resync {settings : Settings} {ns : String} {s : System}
    (h : System.LossyReachable .free (.empty settings ns) s) :
    Runs resync s.world fun _ u => u.store = s.world.store ∧
      (∀ stage k, u.gates.active? stage = some k →
        ∃ p, u.store.promotion? k = some p ∧ p.key = k ∧ p.isTerminal = false ∧
          u.store.Created stage k ∧ (p.stageKey = stage ∨
            s.world.gates.active? stage = some k ∧
              ∃ other, other ≠ stage ∧ u.store.Created other k)) ∧
      ∀ stage k, s.world.gates.active? stage = some k → s.world.store.hasEnded k = false →
        u.gates.active? stage = some k := by
  have ht : s.world.Traced := h.traced
  obtain ⟨_, u, hr, hkeeps, hall⟩ := resync_remains ht.quiet fun _ _ => ht.store.key_eq
  refine ⟨(), u, hr, hkeeps.store, fun stage k ha => ?_, hkeeps.holders⟩
  have hu : u.Traced := by simpa [hr] using ht.resync
  obtain ⟨hopen, horigin⟩ := hall stage k ha
  rw [← hkeeps.store] at hopen horigin
  obtain ⟨p, hp, hterminal⟩ := Store.stored_of_unended hopen
  refine ⟨p, hp, hu.store.key_eq hp, hterminal, hu.standing (.inl ha), ?_⟩
  by_cases hs : p.stageKey = stage
  · exact .inl hs
  · refine .inr ⟨?_, p.stageKey, hs, hu.store.created hp⟩
    rcases horigin with hbefore | ⟨q, hq, hqs⟩
    · exact hbefore
    · rw [hp] at hq
      cases hq
      exact absurd hqs hs

-- ---------------------------------------------------------------------------
-- Changes that are lost
-- ---------------------------------------------------------------------------

namespace System.Sample

def skipped (w : World) : World := { w with position := w.store.feed.changes.length }

theorem skipped_reachable {w : World} (h : LossyReachable .free (.empty {} "argocd") ⟨w, []⟩) :
    LossyReachable .free (.empty {} "argocd") ⟨skipped w, []⟩ :=
  h.lose w.store.feed.changes.length

def deserted : World := skipped unheard

theorem deserted_reachable : LossyReachable .free (.empty {} "argocd") ⟨deserted, []⟩ :=
  skipped_reachable unheard_reachable.lossy

/-- A promotion of another stage has its name, and the promoter will not hear of that either. -/
def mistaken : World := skipped (written unheard (.create (named "a" "test")))

theorem mistaken_reachable : LossyReachable .free (.empty {} "argocd") ⟨mistaken, []⟩ :=
  skipped_reachable (reaches_written _ unheard_reachable).lossy

end System.Sample

open System.Sample in
theorem holders_after_resync_sample : ∃ s u p,
    System.LossyReachable .free (.empty {} "argocd") s ∧
    s.world.gates.active? p.stageKey = some ⟨"ns", "a"⟩ ∧
    resync.run.run s.world = (.ok (), u) ∧ u.gates.active? p.stageKey = some p.key ∧
    u.store.promotion? p.key = some p ∧ p.isTerminal = false := by
  have hheld : (resync.run.run deserted).2.gates.active? ⟨"ns", "prod"⟩ = some ⟨"ns", "b"⟩ := by
    decide +kernel
  obtain ⟨_, u, hr, -, hholders, -⟩ := holders_after_resync deserted_reachable
  rw [hr] at hheld
  obtain ⟨p, hp, hkey, hopen, -, hstage | ⟨hbefore, -⟩⟩ := hholders _ _ hheld
  · rw [← hkey, ← hstage] at hheld
    refine ⟨_, u, p, deserted_reachable, ?_, hr, hheld, hkey ▸ hp, hopen⟩
    rw [hstage]
    decide +kernel
  · have hnot : deserted.gates.active? ⟨"ns", "prod"⟩ ≠ some ⟨"ns", "b"⟩ := by decide +kernel
    exact absurd hbefore hnot

open System.Sample in
/-- A stage stays with a name that belongs to a promotion of another stage by now. -/
theorem stale_holder_kept : ∃ s u p stage,
    System.LossyReachable .free (.empty {} "argocd") s ∧
    resync.run.run s.world = (.ok (), u) ∧ u.gates.active? stage = some p.key ∧
    u.store.promotion? p.key = some p ∧ p.stageKey ≠ stage := by
  have ht : mistaken.Traced := mistaken_reachable.traced
  obtain ⟨_, u, hr, hkeeps, -⟩ := resync_remains ht.quiet fun _ _ => ht.store.key_eq
  have hheld : u.gates.active? ⟨"ns", "prod"⟩ = some ⟨"ns", "a"⟩ :=
    hkeeps.holders _ _ (by decide +kernel) (by decide +kernel)
  have hstored : u.store.promotion? ⟨"ns", "a"⟩ = some ((named "a" "test").stamped 3) := by
    rw [hkeeps.store]
    decide +kernel
  exact ⟨_, u, (named "a" "test").stamped 3, _, mistaken_reachable, hr, hheld, hstored,
    by decide +kernel⟩

end StageGate
