import StageGate.Proofs.Promoter.Actions

/-!
# The promoter among its clients

A system is a world together with the keys that workers have in hand. Its steps may come in any
order: a client writes to the store, the promoter takes the next delivery off the feed, some
worker goes on with its key, or time passes. Rules say what clients may write and which mechanics
the workers use. A run that takes its steps in an order of its own is one of the runs of a system:
`reaches_runUntil`.
-/

namespace StageGate

inductive Progress where
  | taken
  | tried (outcome : Except ReconcileError Outcome)
  /-- The outcome was acted on, and the key is to be given back. -/
  | reported

structure Job where
  key : PromotionKey
  progress : Progress

structure System where
  world : World
  jobs : List Job := []

structure Rules where
  permits : Store → Write → Prop
  employs : Mechanics → Prop

/-- A client of this kind creates pending promotions only and writes terminal statuses only. -/
def Write.Orderly : Write → Prop
  | .create p => p.phase = .pending
  | .updateStatus _ _ status => status.phase.isTerminal = true
  | .delete _ | .upsertStage _ | .upsertApplication _ => True

namespace Rules

def free : Rules := ⟨fun _ _ => True, fun _ => True⟩

/-- Clients create no key twice and leave terminal promotions as they are; any mechanics are used.
-/
def lenient : Rules := ⟨fun s w => w.Respects s, fun _ => True⟩

def orderly : Rules := ⟨fun s w => w.Respects s ∧ w.Orderly, fun _ => True⟩

def alone (mechanics : Mechanics) : Rules := ⟨fun _ _ => False, (· = mechanics)⟩

end Rules

namespace System

/-- A promoter and a store that start empty. The promoter hears of everything from the start. -/
def empty (settings : Settings) (defaultNamespace : String) : System :=
  ⟨World.start settings { defaultNamespace }, []⟩

inductive Step (rules : Rules) (s : System) : System → Prop where
  | write (write : Write) (allowed : rules.permits s.world.store write) :
      Step rules s { s with world := { s.world with store := s.world.store.after write } }
  | deliver (received : World.receive.run s.world = (some delivery, w)) :
      Step rules s { s with world := ((World.onDelivery delivery).run w).2 }
  | take (taken : World.takeKey.run s.world = (key?, w)) :
      Step rules s ⟨w, key?.toList.map (⟨·, .taken⟩) ++ s.jobs⟩
  | attempt (key : PromotionKey) (mechanics : Mechanics) (employed : rules.employs mechanics)
      (job : s.jobs = before ++ ⟨key, .taken⟩ :: later)
      (tried : (World.reconcile mechanics key).run.run s.world = (outcome, w)) :
      Step rules s ⟨w, before ++ ⟨key, .tried outcome⟩ :: later⟩
  | report (key : PromotionKey) (outcome : Except ReconcileError Outcome)
      (job : s.jobs = before ++ ⟨key, .tried outcome⟩ :: later) :
      Step rules s
        ⟨((World.onOutcome key outcome).run s.world).2, before ++ ⟨key, .reported⟩ :: later⟩
  | giveBack (key : PromotionKey) (job : s.jobs = before ++ ⟨key, .reported⟩ :: later) :
      Step rules s ⟨((World.doneWith key).run s.world).2, before ++ later⟩
  | elapse (now : Instant) (onward : s.world.now ≤ now) :
      Step rules s { s with world := { s.world with now } }
  /-- The world draws no random part of a delay. With one, the requests that lie in wait may fall
  due at other times and in another order. -/
  | retime (delayed : List Delayed)
      (same : (delayed.map Delayed.key).Perm (s.world.queue.delayed.map Delayed.key)) :
      Step rules s { s with world := { s.world with queue := { s.world.queue with delayed } } }

inductive Reachable (rules : Rules) (start : System) : System → Prop where
  | start : Reachable rules start start
  | step (reached : Reachable rules start s) (step : Step rules s s') : Reachable rules start s'

theorem Reachable.mono {rules rules' : Rules} {start s : System} (h : Reachable rules start s)
    (permits : ∀ s w, rules.permits s w → rules'.permits s w)
    (employs : ∀ m, rules.employs m → rules'.employs m) : Reachable rules' start s := by
  induction h with
  | start => exact .start
  | step reached step ih =>
    refine ih.step ?_
    cases step with
    | write ask allowed => exact .write ask (permits _ _ allowed)
    | deliver received => exact .deliver received
    | take taken => exact .take taken
    | attempt key mechanics employed job tried =>
      exact .attempt key mechanics (employs _ employed) job tried
    | report key outcome job => exact .report key outcome job
    | giveBack key job => exact .giveBack key job
    | elapse now onward => exact .elapse now onward
    | retime delayed same => exact .retime delayed same

theorem receive_ok {w u : World} (h : World.receive.run w = (some delivery, u)) :
    ∃ position, w.store.feed.receive w.position = some (delivery, position) ∧
      u = { w with position } := by
  rw [World.run_receive] at h
  split at h
  · cases h
  · next d position hr =>
    cases h
    exact ⟨position, hr, rfl⟩

theorem Step.hear {rules : Rules} {s : System} (delivery : Delivery) (position : Nat)
    (h : s.world.store.feed.receive s.world.position = some (delivery, position)) :
    Step rules s
      { s with world := ((World.onDelivery delivery).run { s.world with position }).2 } :=
  .deliver (by rw [World.run_receive, h])

/-- Every change was heard of, and the queue has nothing to hand out, now or later. -/
def Quiescent (s : System) : Prop :=
  s.world.store.feed.receive s.world.position = none ∧ s.world.queue.isIdle = true

end System

-- ---------------------------------------------------------------------------
-- Runs
-- ---------------------------------------------------------------------------

namespace Run

variable {r r' : Run} {rules : Rules} {start : System}

open World

theorem attempt_eq_reconcile (r : Run) (key : PromotionKey) :
    (reconcile (fun stage p => (r.playbook.perform stage p).1) key).run.run r.world =
      ((r.attempt key).1, (r.attempt key).2.world) := by
  unfold reconcile attempt
  rw [attempt_bind, show (prepare key).run r.world = (prepare key).run.run r.world from rfl]
  rcases (prepare key).run.run r.world with ⟨e | _ | task, w⟩ <;> rfl

theorem reaches_deliver (h : r.deliver = some r')
    (hr : System.Reachable rules start ⟨r.world, jobs⟩) :
    System.Reachable rules start ⟨r'.world, jobs⟩ := by
  unfold deliver at h
  split at h
  · cases h
  · next delivery w hw =>
    cases h
    exact hr.step (.deliver hw)

theorem reaches_work (h : r.work = some r')
    (employed : rules.employs fun stage p => (r.playbook.perform stage p).1)
    (hr : System.Reachable rules start ⟨r.world, []⟩) :
    System.Reachable rules start ⟨r'.world, []⟩ := by
  unfold work at h
  split at h
  · split at h
    · cases h
    · next key w hw =>
      cases h
      have htried := attempt_eq_reconcile { r with world := w } key
      have htake := hr.step (.take hw)
      have only (progress : Progress) :
          [⟨key, progress⟩] = [] ++ (⟨key, progress⟩ : Job) :: [] := rfl
      have hattempt := htake.step (.attempt key _ employed (only .taken) htried)
      have hreport := hattempt.step (.report key _ (only _))
      have hdone := hreport.step (.giveBack key (only .reported))
      exact hdone
  · cases h

theorem reaches_passTime (h : r.passTime = some r')
    (hr : System.Reachable rules start ⟨r.world, jobs⟩) :
    System.Reachable rules start ⟨r'.world, jobs⟩ := by
  unfold passTime at h
  split at h
  · obtain ⟨w, hw, rfl⟩ := Option.map_eq_some_iff.mp h
    obtain ⟨due, -, rfl⟩ := Option.map_eq_some_iff.mp hw
    exact hr.step (.elapse _ (Nat.le_max_left _ _))
  · cases h

theorem step_cases (h : r.step = some r') :
    r.deliver = some r' ∨ r.work = some r' ∨ r.passTime = some r' := by
  unfold step at h
  cases hd : r.deliver with
  | some next => exact .inl (by simpa [hd] using h)
  | none =>
    cases hw : r.work with
    | some next => exact .inr (.inl (by simpa [hd, hw] using h))
    | none => exact .inr (.inr (by simpa [hd, hw] using h))

theorem reaches_step (h : r.step = some r')
    (employed : rules.employs fun stage p => (r.playbook.perform stage p).1)
    (hr : System.Reachable rules start ⟨r.world, []⟩) :
    System.Reachable rules start ⟨r'.world, []⟩ := by
  rcases step_cases h with h | h | h
  · exact reaches_deliver h hr
  · exact reaches_work h employed hr
  · exact reaches_passTime h hr

-- ---------------------------------------------------------------------------
-- Whole runs
-- ---------------------------------------------------------------------------

variable {B : Playbook → Prop}

theorem playbook_open (h : r.open? = .ok r') : r'.playbook = r.playbook := by
  unfold open? at h
  simp only at h
  split at h
  · cases h
  · cases h
    rfl

theorem playbook_attempt (kept : ∀ b, B b → ∀ stage p, B (b.perform stage p).2) (r : Run)
    (hb : B r.playbook) (key : PromotionKey) : B (r.attempt key).2.playbook := by
  unfold attempt
  rcases (prepare key).run r.world with ⟨e | _ | task, w⟩
  · exact hb
  · exact hb
  · exact kept _ hb _ _

theorem playbook_step (kept : ∀ b, B b → ∀ stage p, B (b.perform stage p).2)
    (hb : B r.playbook) (h : r.step = some r') : B r'.playbook := by
  rcases step_cases h with h | h | h
  · unfold deliver at h
    split at h
    · cases h
    · cases h; exact hb
  · unfold work at h
    split at h
    · split at h
      · cases h
      · next key w hw =>
        cases h
        exact playbook_attempt kept { r with world := w } hb key
    · cases h
  · unfold passTime at h
    split at h
    · obtain ⟨w, -, rfl⟩ := Option.map_eq_some_iff.mp h
      exact hb
    · cases h

/-- A run is one of the runs of a system whose workers use the answers of its playbook. -/
theorem reaches_runUntil (employed : ∀ b, B b → rules.employs fun stage p => (b.perform stage p).1)
    (kept : ∀ b, B b → ∀ stage p, B (b.perform stage p).2) (wanted : World → Bool) (fuel : Nat)
    (hb : B r.playbook) (hr : System.Reachable rules start ⟨r.world, []⟩) :
    System.Reachable rules start ⟨(r.runUntil wanted fuel).world, []⟩ := by
  induction fuel generalizing r with
  | zero => rw [runUntil]; exact hr
  | succ fuel ih =>
    rw [runUntil]
    split
    · exact hr
    · split
      · exact hr
      · next r' hs => exact ih (playbook_step kept hb hs) (reaches_step hs (employed _ hb) hr)

end Run

-- ---------------------------------------------------------------------------
-- A small system
-- ---------------------------------------------------------------------------

namespace System.Sample

def stage : Stage := { metadata := { ns := "ns", name := "test", created := ⟨0, 0⟩ } }

def promotion : Promotion :=
  { metadata := { ns := "ns", name := "a", created := ⟨0, 0⟩ }, spec := ⟨"test", "v1"⟩ }

def world : World :=
  { World.start {} { defaultNamespace := "argocd" } with
    store := (({ defaultNamespace := "argocd" } : Store).after (.upsertStage stage)).after
      (.create promotion) }

theorem reachable : Reachable .orderly (.empty {} "argocd") ⟨world, []⟩ := by
  have hstart : Reachable .orderly (.empty {} "argocd") (.empty {} "argocd") := .start
  have hstage := hstart.step (.write (.upsertStage stage) ⟨trivial, trivial⟩)
  refine hstage.step (.write (.create promotion) ⟨?_, rfl⟩)
  intro p hp
  cases hp

end System.Sample

end StageGate
