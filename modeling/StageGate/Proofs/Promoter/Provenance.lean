import StageGate.Proofs.Gates.Distinct
import StageGate.Proofs.Promoter.Frame
import StageGate.Proofs.Promoter.System

/-!
# Where the keys at the gates come from

Clients may do as they like here: they revive promotions, and they give the name of a deleted one to
another, of another stage. An entry in line has a key only, so what it stands for may change under
it. Main statement: `dispatched_of_reachable`. A key that is sent for a stage belongs to a promotion
that is there and has not ended, and some promotion of that key was created for the stage; only
where all that were created under the key had one stage is it the same promotion's.
-/

namespace StageGate

namespace Store

variable {s s' : Store} {stage : StageKey} {k : PromotionKey} {p : Promotion}

def Created (s : Store) (stage : StageKey) (k : PromotionKey) : Prop :=
  ∃ q, .promotionCreated q ∈ s.feed.changes ∧ q.key = k ∧ q.stageKey = stage

/-- What is stored was created as what it is. -/
structure Traced (s : Store) : Prop where
  key_eq : ∀ {k p}, s.promotion? k = some p → p.key = k
  created : ∀ {k p}, s.promotion? k = some p → s.Created p.stageKey k

structure Traces (s s' : Store) : Prop where
  traced : s'.Traced
  created : ∀ {stage k}, s.Created stage k → s'.Created stage k

theorem traced_empty (ns : String) : Traced { defaultNamespace := ns } where
  key_eq h := by cases h
  created h := by cases h

theorem Traced.refl (h : s.Traced) : s.Traces s := ⟨h, id⟩

theorem Traces.trans {t : Store} (h : s.Traces s') (h' : s'.Traces t) : s.Traces t :=
  ⟨h'.traced, fun hc => h'.created (h.created hc)⟩

theorem Created.emit {c : Change} (h : s.Created stage k) (feed : s'.feed = s.feed.emit c) :
    s'.Created stage k := by
  obtain ⟨q, hq, hk⟩ := h
  refine ⟨q, ?_, hk⟩
  rw [feed, Feed.changes_emit]
  exact List.mem_append_left _ hq

/-- A store can be traced on if what it has now was there before with the same key and stage, or was
just created. -/
theorem Traced.next (h : s.Traced)
    (feed : s'.feed = s.feed ∨ ∃ c, s'.feed = s.feed.emit c)
    (stored : ∀ k p, s'.promotion? k = some p →
      (∃ old, s.promotion? k = some old ∧ p.key = old.key ∧ p.stageKey = old.stageKey) ∨
        p.key = k ∧ s'.Created p.stageKey k) : s.Traces s' := by
  have mono {stage : StageKey} {k : PromotionKey} (hc : s.Created stage k) :
      s'.Created stage k := by
    rcases feed with feed | ⟨c, feed⟩
    · unfold Created
      rwa [feed]
    · exact hc.emit feed
  refine ⟨⟨fun {k p} hp => ?_, fun {k p} hp => ?_⟩, mono⟩
  · rcases stored k p hp with ⟨old, hold, hkey, -⟩ | ⟨hkey, -⟩
    · exact hkey.trans (h.key_eq hold)
    · exact hkey
  · rcases stored k p hp with ⟨old, hold, -, hstage⟩ | ⟨-, hcreated⟩
    · rw [hstage]
      exact mono (h.created hold)
    · exact hcreated

theorem Traced.write (h : s.Traced) {w : Write} (hw : s.write w = .ok s') : s.Traces s' := by
  refine h.next (wrote hw).fed fun k p hp => ?_
  rcases (wrote hw).before_or_created h.key_eq hp with ⟨old, hold, hb⟩ | ⟨hk, hc⟩
  · exact .inl ⟨old, hold, Promotion.key_of_bare hb, Promotion.stageKey_of_bare hb⟩
  · exact .inr ⟨hk, p, hc, hk, rfl⟩

theorem Traced.updateStatus (h : s.Traced) {version : UInt64} {status : PromotionStatus}
    (hw : s.updateStatus k version status = .ok (p, s')) : s.Traces s' :=
  h.write (w := .updateStatus k version status) (map_snd_ok.mpr ⟨p, hw⟩)

theorem Traced.after (h : s.Traced) (w : Write) : s.Traces (s.after w) := by
  rcases s.after_cases w with he | he
  · rw [he]
    exact h.refl
  · exact h.write he

end Store

namespace World

/-- Who stands at a gate was created for its stage. -/
structure Traced (w : World) : Prop where
  quiet : w.Quiet
  store : w.store.Traced
  standing : ∀ {stage k}, (w.gates.gate stage).Stands k → w.store.Created stage k

namespace Traced

variable {w u : World} {stage : StageKey} {k key : PromotionKey} {p : Promotion} {c : Change}

theorem start (settings : Settings) (ns : String) :
    (World.start settings { defaultNamespace := ns }).Traced where
  quiet := rfl
  store := Store.traced_empty ns
  standing h := absurd h Gate.not_stands_empty

theorem regate (h : w.Traced) (gates : Gates) (queue : WorkQueue) (counters : Counters)
    (log : List LogRecord)
    (standing : ∀ stage k, (gates.gate stage).Stands k →
      (w.gates.gate stage).Stands k ∨ w.store.Created stage k) :
    ({ w with gates, queue, counters, log } : World).Traced where
  quiet := h.quiet
  store := h.store
  standing hs := (standing _ _ hs).elim h.standing id

theorem at_gate {gs gs' : Gates} {stage other : StageKey} {g : Gate}
    (hgate : ∀ other, gs'.gate other = if other = stage then g else gs.gate other)
    (hs : (gs'.gate other).Stands k) :
    other = stage ∧ g.Stands k ∨ (gs.gate other).Stands k := by
  rw [hgate] at hs
  split at hs
  · next ho => exact .inl ⟨ho, hs⟩
  · exact .inr hs

theorem enqueueNext (h : w.Traced) (stage : StageKey) :
    ((World.enqueueNext stage).run w).2.Traced := by
  obtain ⟨counters, log, hr⟩ := enqueueNext_quiet h.quiet stage
  rw [hr]
  refine h.regate _ _ _ _ fun other k hs => .inl ?_
  rcases at_gate (fun _ => Gates.gate_passEnded _) hs with ⟨rfl, hg⟩ | hs
  · exact Gate.stands_of_passEnded hg
  · exact hs

theorem conclude (h : w.Traced) (stage : StageKey) (key : PromotionKey) (counters : Counters)
    (log : List LogRecord) :
    ({ w with gates := (w.gates.conclude stage key).2, counters, log } : World).Traced := by
  refine h.regate _ w.queue counters log fun other k hs => .inl ?_
  rcases at_gate (fun _ => Gates.gate_conclude key) hs with ⟨rfl, hg⟩ | hs
  · exact (Gate.conclude_lost _ key).stands hg
  · exact hs

theorem release (h : w.Traced) (stage : StageKey) (key : PromotionKey) :
    ((World.release stage key).run w).2.Traced := by
  obtain ⟨counters, log, hr⟩ := release_run stage key w
  rw [hr]
  exact (h.conclude stage key counters log).enqueueNext stage

theorem onPromotionCreated (h : w.Traced) (hp : w.store.Created p.stageKey p.key) :
    ((World.onPromotionCreated p).run w).2.Traced := by
  by_cases hw : w.settings.worksOn p = true
  · obtain ⟨counters, log, hr⟩ := onPromotionCreated_run hw
    rw [hr]
    refine h.regate _ _ _ _ fun other k hs => ?_
    rcases at_gate (fun _ => Gates.gate_enroll _) hs with ⟨rfl, hg⟩ | hs
    · rcases Gate.stands_enroll.mp hg with rfl | hs
      · exact .inr hp
      · exact .inl hs
    · exact .inl hs
  · rwa [onPromotionCreated_pass (by simpa using hw)]

theorem handle (h : w.Traced) (hc : c ∈ w.store.feed.changes) :
    ((World.handle c).run w).2.Traced := by
  cases he : c.ended? with
  | some p =>
    rw [handle_ended he]
    split
    · exact h.release _ _
    · exact h
  | none =>
    cases c with
    | promotionCreated p => exact h.onPromotionCreated ⟨p, hc, rfl, rfl⟩
    | promotionUpdated old new => rwa [handle_passed he]
    | promotionDeleted p => cases he
    | applicationUpdated old new =>
      refine handle_application h.quiet old new h ?_
      intro _ p u counters log _ hu _
      exact hu.regate u.gates _ counters log fun _ _ => .inl

theorem resync (h : w.Traced) : (World.resync.run.run w).2.Traced := by
  refine resync_run (F := fun _ => Traced) (D := fun _ => Traced)
    (A := fun list u => u.Traced ∧ ∀ p ∈ list, u.store.Created p.stageKey p.key)
    h ?free ?freed ?enroll ?enrolled ?send
  case free =>
    intro stage _ u hu
    exact releaseStale_quiet hu.quiet stage (fun _ => hu) (fun _ _ _ => hu)
      fun k counters log _ _ => hu.conclude stage k counters log
  case freed =>
    intro u hu
    refine ⟨hu.quiet, hu, fun p hp => ?_⟩
    obtain ⟨k, hk⟩ := Store.mem_promotionList_iff.mp (mem_toAdmit.mp hp).1
    rw [hu.store.key_eq hk]
    exact hu.store.created hk
  case enroll =>
    rintro p rest u ⟨hu, hlist⟩
    refine ⟨hu.onPromotionCreated (hlist p List.mem_cons_self), fun q hq => ?_⟩
    rw [(keeps_onPromotionCreated p).store]
    exact hlist q (List.mem_cons_of_mem _ hq)
  case enrolled => exact fun u log hu => hu.1.regate u.gates u.queue u.counters log fun _ _ => .inl
  case send => exact fun stage _ u hu => hu.enqueueNext stage

theorem delivered (h : w.Traced) {delivery : Delivery}
    (hr : receive.run w = (some delivery, u)) : ((onDelivery delivery).run u).2.Traced := by
  obtain ⟨position, hnext, rfl⟩ := System.receive_ok hr
  have hread : ({ w with position } : World).Traced := ⟨h.quiet, h.store, h.standing⟩
  cases delivery with
  | change c =>
    rw [onDelivery_change]
    exact hread.handle (Feed.mem_of_receive hnext)
  | lagged missed =>
    have hlogged := hread.regate w.gates w.queue w.counters
      (.watchLagged missed :: w.log) fun _ _ => .inl
    rw [onDelivery_lagged]
    exact hlogged.resync

theorem claim (h : w.Traced) (hp : w.store.promotion? p.key = some p) (counters : Counters)
    (log : List LogRecord) : ({ w with
      gates := (w.gates.claim p.stageKey (.ofPromotion p)).2, counters, log } : World).Traced := by
  refine h.regate _ w.queue counters log fun other k hs => ?_
  rcases at_gate (fun _ => Gates.gate_claim _) hs with ⟨rfl, hg⟩ | hs
  · rcases Gate.stands_claim.mp hg with rfl | hs
    · exact .inr (h.store.created hp)
    · exact .inl hs
  · exact .inl hs

theorem restore (h : w.Traced) {s : Store} (hs : w.store.Traces s) :
    ({ w with store := s } : World).Traced where
  quiet := h.quiet
  store := hs.traced
  standing hst := hs.created (h.standing hst)

theorem tried (h : w.Traced) {mechanics : Mechanics} {outcome : Except ReconcileError Outcome}
    (ht : Tried mechanics key w outcome u) : u.Traced := by
  cases ht with
  | ended past counters => exact h.regate w.gates w.queue counters w.log fun _ _ => .inl
  | busy p stored unended other claim counters log =>
    obtain rfl := h.store.key_eq stored
    exact h.claim stored counters log
  | behind p stored unended head claim counters log =>
    obtain rfl := h.store.key_eq stored
    exact (h.claim stored counters log).enqueueNext p.stageKey
  | ran p stored unended claim running s s' marked concluded counters log =>
    obtain rfl := h.store.key_eq stored
    have hmarked : w.store.Traces s := by
      cases marked with
      | marked pending write => exact h.store.updateStatus write
      | kept open_ => exact h.store.refl
    have hconcluded : s.Traces s' := by
      cases concluded with
      | ended end_ write => exact hmarked.traced.updateStatus write
      | unfinished open_ again => exact hmarked.traced.refl
    exact (h.claim stored counters log).restore (hmarked.trans hconcluded)

end Traced

end World

open World

theorem World.Traced.step {s s' : System} (h : s.world.Traced) (hs : System.Step .free s s') :
    s'.world.Traced := by
  cases hs with
  | write ask allowed => exact h.restore (h.store.after ask)
  | deliver received => exact h.delivered received
  | take taken =>
    rw [run_takeKey] at taken
    cases taken
    exact ⟨h.quiet, h.store, h.standing⟩
  | attempt key mechanics employed job tried =>
    have hkey (p : Promotion) (hp : s.world.store.promotion? key = some p) : p.key = key :=
      h.store.key_eq hp
    have ht := reconcile_quiet h.quiet hkey mechanics
    rw [tried] at ht
    exact h.tried ht
  | report key outcome job =>
    obtain ⟨counters, log, hr⟩ := onOutcome_run key outcome s.world
    rw [hr]
    exact ⟨h.quiet, h.store, h.standing⟩
  | giveBack key job => exact ⟨h.quiet, h.store, h.standing⟩
  | elapse now onward => exact ⟨h.quiet, h.store, h.standing⟩
  | retime delayed same => exact ⟨h.quiet, h.store, h.standing⟩

theorem World.traced_of_reachable {settings : Settings} {ns : String} {s : System}
    (h : System.Reachable .free (.empty settings ns) s) : s.world.Traced := by
  induction h with
  | start => exact .start settings ns
  | step reached step ih => exact ih.step step

/-- In every state that clients reach who write what they like, a key that is sent for a stage
belongs to a promotion that is stored and has not ended, and it was created for the stage. Where no
promotion of the key was created for another stage, what is stored is for this one. -/
theorem dispatched_of_reachable {settings : Settings} {ns : String} {s : System}
    (h : System.Reachable .free (.empty settings ns) s) {stage : StageKey} {k : PromotionKey}
    (sent : ((enqueueNext stage).run s.world).1 = some k) :
    ∃ p, s.world.store.promotion? k = some p ∧ p.key = k ∧ p.isTerminal = false ∧
      s.world.store.Created stage k ∧
      ((∀ other, s.world.store.Created other k → other = stage) → p.stageKey = stage) := by
  have ht := traced_of_reachable h
  rw [enqueueNext_answer ht.quiet, Gates.gate_passEnded, if_pos rfl] at sent
  obtain ⟨p, hp, hopen⟩ := Store.stored_of_unended (Gate.next?_passEnded sent)
  have hstands := Gate.stands_of_passEnded (Gate.stands_of_next? sent)
  exact ⟨p, hp, ht.store.key_eq hp, hopen, ht.standing hstands,
    fun hsole => hsole _ (ht.store.created hp)⟩

-- ---------------------------------------------------------------------------
-- A name that is used again
-- ---------------------------------------------------------------------------

namespace System.Sample

def named (name stage : String) : Promotion :=
  { metadata := { ns := "ns", name, created := ⟨0, 0⟩ }, spec := ⟨stage, "v1"⟩ }

def written (w : World) (write : Write) : World := { w with store := w.store.after write }

theorem reaches_written {start : System} {w : World} {jobs : List Job} (write : Write)
    (h : Reachable .free start ⟨w, jobs⟩) : Reachable .free start ⟨written w write, jobs⟩ :=
  h.step (.write write trivial)

/-- The world once it has been written to and the promoter has heard of the next change. -/
def told (w : World) (write : Write) (c : Change) : World :=
  ((onDelivery (.change c)).run
    { w with store := w.store.after write, position := w.position + 1 }).2

theorem reaches_told {start : System} {w : World} (write : Write) (c : Change)
    (h : Reachable .free start ⟨w, []⟩)
    (next : (w.store.after write).feed.receive w.position = some (.change c, w.position + 1)) :
    Reachable .free start ⟨told w write c, []⟩ :=
  (reaches_written write h).step (.hear (.change c) (w.position + 1) next)

/-- Both promotions are for one stage: the first one holds it, the second one waits. -/
def waiting : World :=
  let first := told (World.start {} { defaultNamespace := "argocd" }) (.create (named "a" "prod"))
    (.promotionCreated ((named "a" "prod").stamped 1))
  told first (.create (named "b" "prod")) (.promotionCreated ((named "b" "prod").stamped 2))

theorem waiting_reachable : Reachable .free (.empty {} "argocd") ⟨waiting, []⟩ :=
  reaches_told _ _ (reaches_told _ _ .start (by decide +kernel)) (by decide +kernel)

def freed (w : World) : World :=
  told w (.delete ⟨"ns", "a"⟩) (.promotionDeleted ((named "a" "prod").stamped 1))

/-- The one that waited is gone too, and another one of its name is there, for another stage. -/
def reused : World :=
  let gone := told waiting (.delete ⟨"ns", "b"⟩) (.promotionDeleted ((named "b" "prod").stamped 2))
  told gone (.create (named "b" "test")) (.promotionCreated ((named "b" "test").stamped 3))

theorem reused_reachable : Reachable .free (.empty {} "argocd") ⟨reused, []⟩ :=
  reaches_told _ _ (reaches_told _ _ waiting_reachable (by decide +kernel)) (by decide +kernel)

end System.Sample

open System.Sample in
theorem dispatched_of_reachable_sample : ∃ s p,
    System.Reachable .free (.empty {} "argocd") s ∧
    ((enqueueNext ⟨"ns", "prod"⟩).run s.world).1 = some ⟨"ns", "b"⟩ ∧
    s.world.store.promotion? ⟨"ns", "b"⟩ = some p ∧ p.stageKey = ⟨"ns", "prod"⟩ := by
  have hreached : System.Reachable .free (.empty {} "argocd") ⟨freed waiting, []⟩ :=
    reaches_told _ _ waiting_reachable (by decide +kernel)
  have hsent : ((enqueueNext ⟨"ns", "prod"⟩).run (freed waiting)).1 = some ⟨"ns", "b"⟩ := by
    decide +kernel
  have hprod : ((freed waiting).store.feed.changes.all fun
      | .promotionCreated q => q.stageKey = ⟨"ns", "prod"⟩
      | _ => true) = true := by decide +kernel
  obtain ⟨p, hp, -, -, -, hstage⟩ := dispatched_of_reachable hreached hsent
  refine ⟨_, p, hreached, hsent, hp, hstage fun other hcreated => ?_⟩
  obtain ⟨q, hq, -, rfl⟩ := hcreated
  simpa using List.all_eq_true.mp hprod _ hq

open System.Sample in
/-- The entry of a promotion that is gone passes for one of another stage. -/
theorem dispatched_elsewhere : ∃ s p,
    System.Reachable .free (.empty {} "argocd") s ∧
    s.world.store.feed.receive s.world.position = none ∧
    ((enqueueNext ⟨"ns", "prod"⟩).run s.world).1 = some p.key ∧
    s.world.store.promotion? p.key = some p ∧ p.stageKey = ⟨"ns", "test"⟩ := by
  have hreached : System.Reachable .free (.empty {} "argocd") ⟨freed reused, []⟩ :=
    reaches_told _ _ reused_reachable (by decide +kernel)
  refine ⟨_, (named "b" "test").stamped 3, hreached, ?_, ?_, ?_, rfl⟩ <;> decide +kernel

end StageGate
