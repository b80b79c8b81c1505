import StageGate.Proofs.Promoter.Promoted

/-!
# Where the end of a promotion is written

An attempt computes a status for the promotion that it has taken up, and writes it to what it finds
under the key. Main statement: `lands_on_successor`. The first try goes by the version that was
read, so it succeeds on that promotion alone. Later tries go by whatever version is found, so they
may succeed on a promotion that was created under the key since: `lands_on_another`.
-/

namespace StageGate

namespace World

variable {w u v : World} {key : PromotionKey} {stageKey : StageKey} {p : Promotion}
  {status : PromotionStatus} {version : UInt64} {us : List StatusTry}

-- ---------------------------------------------------------------------------
-- The second half of an attempt
-- ---------------------------------------------------------------------------

/-- All that is written, if anything, is one status that ends the promotion. -/
def Concludes (v : World) (p : Promotion) (us : List StatusTry) : Prop :=
  us = [] ∨ ∃ status answer u, status.phase.isTerminal = true ∧
    v.Directed p status p.metadata.version us answer u

theorem concludes_setStatus {f : Option Promotion → Attempt α}
    (passive : ∀ q?, Passive (f q?).run) (terminal : status.phase.isTerminal = true) :
    Tries (setStatus p status >>= f).run w fun us _ _ => w.Concludes p us := by
  refine Tries.attempt_bind (setStatus_directed p status w) (fun us q? u h => ?_)
    fun us e u h => .inr ⟨status, _, u, terminal, h⟩
  refine (passive q?).tries u ?_
  rw [List.append_nil]
  exact .inr ⟨status, _, u, terminal, h⟩

theorem finish_concludes (task : Task) (answer : Answer) (w : World) :
    Tries (finish task answer).run w fun us _ _ => w.Concludes task.promotion us := by
  unfold finish
  cases answer with
  | status status =>
    simp only
    split
    · next hterminal => exact concludes_setStatus (fun _ => .pure _) hterminal
    · exact Passive.get.lift_bind ((Passive.pure _).tries _ (.inl rfl))
  | structural text => exact concludes_setStatus (fun _ => .pure _) rfl
  | transient text => exact (Passive.pure _).tries _ (.inl rfl)
  | crash => exact (Passive.pure _).tries _ (.inl rfl)

theorem carryOut_concludes (mechanics : Mechanics) (key : PromotionKey) (stageKey : StageKey)
    (p : Promotion) (w : World) : Tries (carryOut mechanics key stageKey p).run w fun us _ _ =>
      ((readStage stageKey).run w).2.Concludes p us := by
  unfold carryOut equip
  rw [bind_assoc]
  refine (Passive.readStage stageKey).lift_bind ?_
  rcases ((readStage stageKey).run w).1 with cause | _ | stage
  · exact (Passive.pure _).tries _ (.inl rfl)
  · simp only [bind_assoc]
    exact concludes_setStatus (fun _ => .pure _) rfl
  · exact finish_concludes ⟨key, stageKey, stage, p⟩ _ _

-- ---------------------------------------------------------------------------
-- The end and what it is written over
-- ---------------------------------------------------------------------------

/-- The status of a promotion that was stored at `s` is written over what was last created under its
key since, and at the first try over the promotion itself. -/
theorem Directed.lands {s : Store} {answer : Except ReconcileError (Option Promotion)}
    {earlier later : List StatusTry} {t : StatusTry}
    (h : w.Directed p status p.metadata.version (earlier ++ t :: later) answer u)
    (current : s.Current) (stored : s.promotion? p.key = some p) (since : s.Written w.store)
    (given : p.metadata.version ≤ s.lastVersion) (follows : s.Follows w.store) (fits : w.Fits 0)
    (succeeded : t.succeeded = true) :
    ∃ old, t.store.promotion? p.key = some old ∧ old.bare = (s.successor t.store p).bare ∧
      (earlier = [] → old = p ∧ s.createdSince t.store p.key = []) := by
  obtain ⟨v, version, rfl, hv⟩ := h.aimed t (by simp)
  obtain ⟨old, hold, hversion⟩ := statusTry_succeeded succeeded
  have hfound : s.Written (v.found .updateStatus (some p.key)) :=
    (since.trans hv).trans (Store.written_meddled _ _ _)
  refine ⟨old, hold, current.succeeds (current.written hfound) (hfound.creations _) stored hold, ?_⟩
  rintro rfl
  -- This is the first try, which names the version that was read.
  have hfirst : v.statusTry p.key version status = w.statusTry p.key p.metadata.version status :=
    Option.some.inj h.first
  have hstore : v.found .updateStatus (some p.key) = w.found .updateStatus (some p.key) :=
    congrArg StatusTry.store hfirst
  have hgiven : old.metadata.version ≤ s.lastVersion := by
    have hname : version = p.metadata.version := congrArg StatusTry.version hfirst
    rwa [hversion, hname]
  have hfollows : s.Follows (v.found .updateStatus (some p.key)) :=
    hstore ▸ follows.trans (fits.found .updateStatus (some p.key)).2
  refine ⟨Option.some.inj ((hfollows.kept hold hgiven).symm.trans stored), ?_⟩
  show List.drop _ ((v.found .updateStatus (some p.key)).creations p.key) = []
  rw [hfollows.alone hold hgiven, List.drop_length]

theorem reconcile_taken (taken : (takeUp key).run.run w = (.ok (some (stageKey, p)), u))
    (mechanics : Mechanics) : (reconcile mechanics key).run.run w =
      (carryOut mechanics key stageKey p).run.run u := by
  rw [reconcile_eq, attempt_bind, taken]

/-- The statuses that an attempt asks to be written in its first half and in its second half. -/
structure Halved (w : World) (key : PromotionKey) (ts us : List StatusTry) : Prop where
  tookUp : ((look key).run w).2.TookUp key ts
    (((takeUp key).run.run w).1.map (·.map (·.2))) ((takeUp key).run.run w).2
  carried : us = [] ∨ ∃ stageKey p u, (takeUp key).run.run w = (.ok (some (stageKey, p)), u) ∧
    ((readStage stageKey).run u).2.Concludes p us

theorem reconcile_halved (mechanics : Mechanics) (key : PromotionKey) (w : World) :
    Tries (reconcile mechanics key).run w fun all _ _ =>
      ∃ ts us, all = ts ++ us ∧ w.Halved key ts us := by
  obtain ⟨ts, hts, htookUp⟩ := takeUp_tookUp key w
  rw [reconcile_eq]
  refine Tries.attempt_bind
    (S := fun all answer u => all = ts ∧ (takeUp key).run.run w = (answer, u))
    ⟨ts, hts, rfl, rfl⟩ ?taken ?failed
  case taken =>
    rintro _ taken u ⟨rfl, hrun⟩
    rcases taken with _ | ⟨stageKey, p⟩
    · exact (Passive.pure _).tries u ⟨_, [], rfl, htookUp, .inl rfl⟩
    · refine (carryOut_concludes mechanics key stageKey p u).mono fun us _ _ h => ?_
      exact ⟨_, us, rfl, htookUp, .inr ⟨stageKey, p, u, hrun, h⟩⟩
  case failed =>
    rintro _ e u ⟨rfl, -⟩
    exact ⟨_, [], (List.append_nil _).symm, htookUp, .inl rfl⟩

end World

open World

/-- Among other writers who write to the store what they like between any two calls, with fewer than
2^64 writes in all: an attempt first writes that its promotion is running, and then how the
promotion ends that it has taken up. Where it succeeds in this, it writes over the promotion that
was last created under the key since the other one was stored, and over that one if there is none.
At the first try it can only succeed on that very promotion. -/
theorem lands_on_successor (mechanics : Mechanics) (key : PromotionKey) {ns : String}
    {ws : List Write} {w : World} (stored : w.store = Store.afterAll { defaultNamespace := ns } ws)
    (few : ws.length + w.disturbances.meddlings + 2 < UInt64.size) :
    ∃ ts us, Writes (reconcile mechanics key).run w (ts ++ us) ∧
      (∀ t ∈ ts, t.status = .ofPhase .running) ∧
      ∀ earlier t later, us = earlier ++ t :: later → t.succeeded = true →
        ∃ stageKey p u s old, (takeUp key).run.run w = (.ok (some (stageKey, p)), u) ∧
          (reconcile mechanics key).run.run w = (carryOut mechanics key stageKey p).run.run u ∧
          w.store.Written s ∧ s.promotion? key = some p ∧ s.Written t.store ∧
          t.key = key ∧ t.status.phase.isTerminal = true ∧
          t.store.promotion? key = some old ∧ old.bare = (s.successor t.store p).bare ∧
          (earlier = [] → old = p ∧ s.createdSince t.store key = []) := by
  have hcurrent : w.store.Current := stored ▸ Store.current_afterAll ns ws
  have hfits : w.Fits 2 := fits_of_few stored few
  obtain ⟨_, hwrites, ts, us, rfl, hhalved⟩ := reconcile_halved mechanics key w
  have htookUp := hhalved.tookUp.since (Steady.look key w).written ((Passive.look key).onward w)
  refine ⟨ts, us, hwrites, htookUp.running, ?_⟩
  rintro earlier t later rfl hsucceeded
  obtain ⟨stageKey, p, u, taken, hconcludes⟩ := hhalved.carried.resolve_left (by simp)
  obtain ⟨status, answer, x, hterminal, hdirected⟩ := hconcludes.resolve_left (by simp)
  rw [taken] at htookUp
  obtain ⟨-, s, hs⟩ := htookUp.sighted hcurrent p rfl
  obtain ⟨hgiven, hfollows⟩ := hs.follows (hfits.le (by decide))
  obtain ⟨hfitsRead, hread⟩ := (Passive.readStage stageKey).onward u 1 (htookUp.onward 1 hfits).1
  have hsince : s.Written ((readStage stageKey).run u).2.store :=
    hs.after.trans (Steady.attempting.readStage stageKey u).written
  have hnow : s.Current := hcurrent.written hs.before
  obtain rfl : p.key = key := hnow.keyed key p hs.stored
  obtain ⟨old, hold, hsuccessor, hearlier⟩ := hdirected.lands hnow hs.stored hsince hgiven
    (hfollows.trans hread) (hfitsRead.le (by decide)) hsucceeded
  obtain ⟨v, version, rfl, hv⟩ := hdirected.aimed t (by simp)
  have hfound : s.Written (v.found .updateStatus (some p.key)) :=
    (hsince.trans hv).trans (Store.written_meddled _ _ _)
  exact ⟨stageKey, p, u, s, old, taken, reconcile_taken taken mechanics, hs.before, hs.stored, hfound,
    rfl, hterminal, hold, hsuccessor, hearlier⟩

-- ---------------------------------------------------------------------------
-- An end for another promotion
-- ---------------------------------------------------------------------------

namespace World.Sample

open Store.Sample

def another : Promotion :=
  { metadata := { ns := "ns", name := "a", created := ⟨1, 0⟩ }, spec := ⟨"test", "v2"⟩ }

/-- A promotion is about to be taken up. Once it is marked as running it is deleted, and another one
is created under its key. -/
def usurped : World :=
  { World.start {} (Store.afterAll { defaultNamespace := "argocd" }
      [.upsertStage stage, .create promotion]) with
    disturbances := ⟨[{ call := .updateStatus,
                        disturbance := { after := [.delete, .write (.create another)] } }]⟩ }

def succeed : Mechanics := fun _ _ => .status (.ofPhase .succeeded)

theorem lands_on_successor_sample : ∃ ts us, usurped.disturbances.meddlings = 2 ∧
    Writes (reconcile succeed key).run usurped (ts ++ us) ∧
    (∀ t ∈ ts, t.status = .ofPhase .running) ∧
    ∀ earlier t later, us = earlier ++ t :: later → t.succeeded = true →
      ∃ (p old : Promotion) (s : Store), s.promotion? key = some p ∧
        t.store.promotion? key = some old ∧ old.bare = (s.successor t.store p).bare := by
  have hstored : usurped.store = Store.afterAll { defaultNamespace := "argocd" }
      [.upsertStage stage, .create promotion] := rfl
  obtain ⟨ts, us, hwrites, hts, hus⟩ := lands_on_successor succeed key hstored (by decide)
  refine ⟨ts, us, by decide, hwrites, hts, fun earlier t later hsplit hsucceeded => ?_⟩
  obtain ⟨_, p, _, s, old, -, -, -, hp, -, -, -, hold, hbare, -⟩ :=
    hus earlier t later hsplit hsucceeded
  exact ⟨p, old, s, hp, hold, hbare⟩

def outlived : Task where
  key := key
  stageKey := ⟨"ns", "test"⟩
  stage := { stage with metadata := { stage.metadata with version := 1 } }
  promotion := { promotion.stamped 3 with status := .ofPhase .running }

/-- What the mechanics answer of one promotion becomes the end of another one, which nobody has
worked on. -/
theorem lands_on_another : ∃ (ws : List Write) (w u : World) (task : Task) (other : Promotion),
    w.store = Store.afterAll { defaultNamespace := "argocd" } ws ∧
    (prepare key).run.run w = (.ok (some task), u) ∧ u.Quiet ∧
    u.store.promotion? key = some other ∧ other.phase = .pending ∧
    other.bare ≠ task.promotion.bare ∧
    ((reconcile succeed key).run.run w).2.store.promotion? key =
      some { other.stamped 5 with status := .ofPhase .succeeded } := by
  refine ⟨_, usurped, _, outlived, another.stamped 4, rfl, Prod.ext ?_ rfl, ?quiet, ?_, rfl, ?_, ?_⟩
  case quiet =>
    show ((prepare key).run.run usurped).2.disturbances = {}
    decide +kernel
  all_goals decide +kernel

end World.Sample

end StageGate
